import Mathlib.Data.List.TakeWhile
import ValueNames.Proofs.Conditional.Placement
import ValueNames.Proofs.Finder

/-!
# Where declarations are found

A declaration ends with the first semicolon behind the first closing brace, wherever
in it reading begins. So declarations that overlap end together, and whether one is
found depends on nothing but its own place: a search finds it unless it begins inside
another declaration. What is found in a source is therefore found in every part of it
that holds it, whatever the part begins with.

## Main results

* `ReadsAt.stop_eq_of_inside` — a declaration that begins inside another one ends with it.
* `mem_search_iff` — a search finds the declarations that begin inside no other one.
* `Finder.mem_enumerations_of_region` — what is found in a source is found in every part
  that holds it.
* `ReadsAt.exists_body_before_line` — a directive line inside a declaration stands in
  its body.
-/

namespace ValueNames

open Text

/-- Text up to the first character of another kind can be split off in one way. -/
theorem Text.append_mark_inj {p : Char → Bool} {front front' rest rest' : Text}
    {mark mark' : Char} (hFront : ∀ c ∈ front, p c = true) (hMark : p mark = false)
    (hFront' : ∀ c ∈ front', p c = true) (hMark' : p mark' = false)
    (h : front ++ mark :: rest = front' ++ mark' :: rest') : mark = mark' ∧ rest = rest' := by
  have hDrop := congrArg (List.dropWhile p) h
  rw [List.dropWhile_append_of_pos hFront, List.dropWhile_append_of_pos hFront',
    List.dropWhile_cons_of_neg (by simp [hMark]),
    List.dropWhile_cons_of_neg (by simp [hMark'])] at hDrop
  exact List.cons_eq_cons.mp hDrop

/-- The longer the beginning of a text, the shorter the rest. -/
theorem Text.length_lt_of_size_lt {front back front' back' : Text}
    (h : front ++ back = front' ++ back') (hSize : size front < size front') :
    back'.length < back.length := by
  obtain ⟨gap, rfl, rfl⟩ := exists_append_of_size_le rfl h (Nat.le_of_lt hSize)
  have hSome : gap ≠ [] := by
    rintro rfl
    rw [List.append_nil] at hSize
    omega
  have hPositive := List.length_pos_iff.mpr hSome
  rw [List.length_append]
  omega

namespace Enumeration

/-! ## The pieces of a declaration -/

/-- The characters of a name and of the blanks around it. -/
def isPlain (c : Char) : Bool := isBlank c || isWord c

theorem isPlain_of_name {front : Text}
    (h : trimStart ((trimStart front).dropWhile isWord) = []) : ∀ c ∈ front, isPlain c = true := by
  have hBlank : ∀ c ∈ (trimStart front).dropWhile isWord, isBlank c = true :=
    List.dropWhile_eq_nil_iff.mp h
  intro c hc
  rw [← List.takeWhile_append_dropWhile (p := isBlank) (l := front)] at hc
  rcases List.mem_append.mp hc with hLead | hc
  · have hOwn := List.all_eq_true.mp List.all_takeWhile c hLead
    simp [isPlain, hOwn]
  · rw [← List.takeWhile_append_dropWhile (p := isWord) (l := front.dropWhile isBlank)] at hc
    rcases List.mem_append.mp hc with hName | hTrail
    · have hOwn := List.all_eq_true.mp List.all_takeWhile c hName
      simp [isPlain, hOwn]
    · simp [isPlain, hBlank c hTrail]

namespace Declaration.WrittenAs

variable {found : Declaration} {first second third : Text}

/-- Up to the opening brace there are blanks and words only. -/
theorem plain_front (h : found.WrittenAs first second third) :
    ∀ c ∈ "enum".toList ++ first, isPlain c = true := by
  intro c hc
  rcases List.mem_append.mp hc with hWord | hFirst
  · have hLetters : "enum".toList.all isPlain = true := by decide +kernel
    exact List.all_eq_true.mp hLetters c hWord
  · exact isPlain_of_name h.tag.2 c hFirst

/-- So there are behind the closing brace. -/
theorem plain_back (h : found.WrittenAs first second third) : ∀ c ∈ third, isPlain c = true :=
  isPlain_of_name h.typedefName.2

theorem ne_closingBrace (h : found.WrittenAs first second third) :
    ∀ c ∈ second, c ≠ closingBrace := by
  intro c hc
  rw [← List.takeWhile_append_dropWhile (p := isBlank) (l := second)] at hc
  rcases List.mem_append.mp hc with hLead | hBody
  · have hBlank := List.all_eq_true.mp List.all_takeWhile c hLead
    rintro rfl
    rw [isBlank_closingBrace] at hBlank
    cases hBlank
  · exact h.body.2 c hBody

end Declaration.WrittenAs

/-- The marks of a declaration end a name. -/
theorem isPlain_mark : isPlain openingBrace = false ∧ isPlain closingBrace = false ∧
    isPlain ';' = false := by decide +kernel

/-- The first closing brace of a declaration ends its body. -/
theorem ne_closingBrace_of_written {found : Declaration} {first second third : Text}
    (h : found.WrittenAs first second third) :
    ∀ c ∈ "enum".toList ++ (first ++ openingBrace :: second), c ≠ closingBrace := by
  intro c hc
  rw [← List.append_assoc] at hc
  rcases List.mem_append.mp hc with hFront | hInner
  · rintro rfl
    have hPlain := h.plain_front _ hFront
    rw [isPlain_mark.2.1] at hPlain
    cases hPlain
  · rcases List.mem_cons.mp hInner with rfl | hSecond
    · decide
    · exact h.ne_closingBrace c hSecond

/--
Behind the body of a declaration there is no mark but the semicolon: no text that begins
there, and not behind the declaration, has another mark as its first.
-/
theorem false_of_mark_behind_body {third rest gap lead tail : Text} {mark : Char}
    (hThird : ∀ c ∈ third, isPlain c = true) (hLead : ∀ c ∈ lead, isPlain c = true)
    (hMark : isPlain mark = false) (hNe : mark ≠ ';')
    (hSplit : third ++ ';' :: rest = gap ++ (lead ++ mark :: tail))
    (hLength : rest.length < (lead ++ mark :: tail).length) : False := by
  rcases List.append_eq_append_iff.mp hSplit with ⟨gone, _, hGone⟩ | ⟨gone, rfl, hGone⟩
  · cases gone with
    | nil =>
        have hHere : lead ++ mark :: tail = [] ++ ';' :: rest := hGone.symm
        exact hNe (append_mark_inj hLead hMark (by simp) isPlain_mark.2.2 hHere).1
    | cons c gone =>
        rw [List.cons_append] at hGone
        have hLonger := congrArg List.length (List.cons_eq_cons.mp hGone).2
        rw [List.length_append] at hLonger
        omega
  · have hPlain : ∀ c ∈ gone, isPlain c = true := fun c hc =>
      hThird c (List.mem_append_right _ hc)
    exact hNe (append_mark_inj hLead hMark hPlain isPlain_mark.2.2 hGone).1

/-! ## Declarations that overlap -/

/--
Reading a declaration from further behind, but before its end, leaves the same rest.
Behind the closing brace no declaration can begin, as there is no opening one before
the semicolon.
-/
theorem rest_eq_of_suffix {before before' : Option Char} {s s' rest rest' : Text}
    {found other : Declaration} (h : declarationAt? before s = some (found, rest))
    (h' : declarationAt? before' s' = some (other, rest')) (hSuffix : s' <:+ s)
    (hLength : rest.length < s'.length) : rest' = rest := by
  obtain ⟨_, first, second, third, rfl, hFound⟩ := declarationAt?_eq_some_iff.mp h
  obtain ⟨_, first', second', third', rfl, hOther⟩ := declarationAt?_eq_some_iff.mp h'
  obtain ⟨ahead, hAhead⟩ := hSuffix
  have hSplit : ahead ++ written first' second' third' rest' =
      ("enum".toList ++ (first ++ openingBrace :: second)) ++
        closingBrace :: (third ++ ';' :: rest) := by
    rw [hAhead]
    simp [written]
  have hOtherSplit : written first' second' third' rest' =
      ("enum".toList ++ (first' ++ openingBrace :: second')) ++
        closingBrace :: (third' ++ ';' :: rest') := by
    simp [written]
  rcases List.append_eq_append_iff.mp hSplit with ⟨middle, hFront, hRest⟩ | ⟨middle, rfl, hRest⟩
  · -- Both have the same closing brace.
    have hMiddle : ∀ c ∈ middle, decide (c ≠ closingBrace) = true := by
      intro c hc
      have hOwn : c ∈ "enum".toList ++ (first ++ openingBrace :: second) := by
        rw [hFront]
        exact List.mem_append_right _ hc
      exact decide_eq_true (ne_closingBrace_of_written hFound c hOwn)
    have hOtherFront : ∀ c ∈ "enum".toList ++ (first' ++ openingBrace :: second'),
        decide (c ≠ closingBrace) = true :=
      fun c hc => decide_eq_true (ne_closingBrace_of_written hOther c hc)
    obtain ⟨_, hBehind⟩ := append_mark_inj hOtherFront (by simp) hMiddle (by simp)
      (hOtherSplit.symm.trans hRest)
    exact (append_mark_inj hOther.plain_back isPlain_mark.2.2 hFound.plain_back isPlain_mark.2.2
      hBehind).2
  · cases middle with
    | nil =>
        have hNever : written first' second' third' rest' ≠
            closingBrace :: (third ++ ';' :: rest) := by
          simp [written, closingBrace]
        exact absurd hRest.symm hNever
    | cons c middle =>
        rw [List.cons_append] at hRest
        have hName : written first' second' third' rest' = ("enum".toList ++ first') ++
            openingBrace :: (second' ++ closingBrace :: (third' ++ ';' :: rest')) := by
          simp [written]
        rw [hName] at hRest hLength
        exact (false_of_mark_behind_body hFound.plain_back hOther.plain_front isPlain_mark.1
          (by decide) (List.cons_eq_cons.mp hRest).2 hLength).elim

/-- A declaration that begins inside another one ends with it. -/
theorem ReadsAt.stop_eq_of_inside {source : Text} {found other : Declaration} {span inner : Span}
    (h : ReadsAt source found span) (h' : ReadsAt source other inner)
    (hStart : span.start < inner.start) (hStop : inner.start < span.stop) :
    inner.stop = span.stop := by
  obtain ⟨front, taken, back, hSource, rfl, hRead⟩ := h
  obtain ⟨front', taken', back', hSource', rfl, hRead'⟩ := h'
  simp only at hStart hStop
  obtain ⟨middle, rfl, hMiddle⟩ :=
    exists_append_of_size_le hSource hSource' (Nat.le_of_lt hStart)
  rw [size_append] at hStop
  have hSizes := congrArg size hMiddle
  simp only [size_append] at hSizes
  have hLength : back.length < (taken' ++ back').length :=
    length_lt_of_size_lt hMiddle.symm (by omega)
  have hRest : back' = back :=
    rest_eq_of_suffix hRead hRead' (hMiddle ▸ List.suffix_append _ _) hLength
  subst hRest
  simp only [size_append]
  omega

/-! ## What a search finds -/

/-- Where a declaration can be read, it is found, or it begins inside one that is found. -/
theorem ReadsAt.mem_search_or_inside {source : Text} {found : Declaration} {span : Span}
    (h : ReadsAt source found span) :
    (found, span) ∈ declaration.search source ∨ ∃ find ∈ declaration.search source,
      find.2.start < span.start ∧ span.start < find.2.stop := by
  obtain ⟨front, taken, back, rfl, rfl, hRead⟩ := h
  exact Recogniser.mem_search_or_inside hRead

/-- A search finds the declarations that begin inside no other one. -/
theorem mem_search_iff {source : Text} {found : Declaration} {span : Span} :
    (found, span) ∈ declaration.search source ↔
      ReadsAt source found span ∧ ∀ other around, ReadsAt source other around →
        ¬ (around.start < span.start ∧ span.start < around.stop) := by
  constructor
  · intro h
    refine ⟨readsAt_of_mem_search h, ?_⟩
    rintro other around hOther ⟨hStart, hStop⟩
    rcases hOther.mem_search_or_inside with hFound | ⟨find, hFind, hBefore, hBehind⟩
    · exact Recogniser.not_inside_of_mem_search h hFound ⟨hStart, hStop⟩
    · -- The declaration begins inside a find, and so does the one around it: they end together.
      have hEnd := (readsAt_of_mem_search hFind).stop_eq_of_inside hOther hBefore hBehind
      exact Recogniser.not_inside_of_mem_search h hFind ⟨by simp only; omega, by simp only; omega⟩
  · rintro ⟨hReads, hAlone⟩
    rcases hReads.mem_search_or_inside with hFound | ⟨find, hFind, hInside⟩
    · exact hFound
    · exact absurd hInside (hAlone find.1 find.2 (readsAt_of_mem_search hFind))

end Enumeration

namespace Finder

variable {source : Text} {region : Span}

/-- What a search finds in a source it finds in every part that holds it. -/
theorem exists_mem_search_slice (hStart : region.start = 0 ∨ IsLineEnd source region.start)
    {text : Text} (hText : slice? source region.start region.stop = some text)
    {found : Enumeration.Declaration} {span : Span}
    (h : (found, span) ∈ Enumeration.declaration.search source)
    (hFrom : region.start ≤ span.start) (hTo : span.stop ≤ region.stop) :
    ∃ own, own.shift region.start = span ∧ (found, own) ∈ Enumeration.declaration.search text := by
  obtain ⟨hReads, hAlone⟩ := Enumeration.mem_search_iff.mp h
  obtain ⟨own, rfl, hOwn⟩ := exists_readsAt_slice hText hReads hFrom hTo
  refine ⟨own, rfl, Enumeration.mem_search_iff.mpr ⟨hOwn, ?_⟩⟩
  rintro other around hOther ⟨hBefore, hBehind⟩
  apply hAlone other _ (readsAt_of_slice hStart hText hOther)
  simp only [Span.shift]
  omega

/-- An enumeration found in a source is found in every part that holds it. -/
theorem mem_enumerations_of_region
    (hStart : region.start = 0 ∨ IsLineEnd source region.start) {all entities : List Entity}
    (hAll : enumerations.find source ⟨0, size source⟩ = .ok all) {declared : Enumeration}
    (hDeclared : .enumeration declared ∈ all)
    (hFrom : region.start ≤ declared.span.start) (hTo : declared.span.stop ≤ region.stop)
    (hFind : enumerations.find source region = .ok entities) :
    .enumeration declared ∈ entities := by
  obtain ⟨whole, found, span, own, hWhole, hFound, hSame, hParts⟩ :=
    exists_found_of_enumerations hAll hDeclared
  cases hSame
  obtain rfl : source = whole := by
    rw [slice?_zero_size] at hWhole
    exact Option.some.inj hWhole
  have hSpan := span_of_ofParts hParts
  simp only [Span.shift, Nat.add_zero] at hSpan hParts
  rw [hSpan] at hFrom hTo
  obtain ⟨text, hText, hEntities⟩ := bind_eq_ok_iff.mp hFind
  obtain ⟨place, hPlace, hMem⟩ :=
    exists_mem_search_slice hStart (regionText_eq_ok_iff.mp hText) hFound hFrom hTo
  obtain ⟨entity, hEntity, hOwn⟩ := exists_mem_of_mapM hEntities hMem
  have hAgain : enumerationOf region.start (found, place) = .ok (.enumeration declared) := by
    show (Enumeration.ofParts _ _ _ (place.shift region.start)).map _ = _
    rw [hPlace, hParts]
    rfl
  rw [hOwn] at hAgain
  cases hAgain
  exact hEntity

end Finder

/-! ## Directive lines inside a declaration -/

namespace Enumeration

theorem isPlain_of_isSpaceOrTab {c : Char} (h : isSpaceOrTab c = true) : isPlain c = true := by
  rcases isSpaceOrTab_iff.mp h with rfl | rfl
  · decide +kernel
  · decide +kernel

/--
Where blanks and the mark of a directive are left of a declaration, its opening brace
has been read and its closing one has not: before the one and behind the other there
are only blanks and words.
-/
theorem body_before_mark {found : Declaration} {first second third rest middle lead text : Text}
    (hFound : found.WrittenAs first second third)
    (hSplit : middle ++ (lead ++ '#' :: text) = written first second third rest)
    (hLead : ∀ c ∈ lead, isPlain c = true)
    (hLength : rest.length < (lead ++ '#' :: text).length) :
    openingBrace ∈ middle ∧ closingBrace ∉ middle := by
  have hDirective : isPlain '#' = false := by decide +kernel
  have hFront : middle ++ (lead ++ '#' :: text) = ("enum".toList ++ first) ++ openingBrace ::
      (second ++ closingBrace :: (third ++ ';' :: rest)) := by
    rw [hSplit]
    simp [written]
  rcases List.append_eq_append_iff.mp hFront with ⟨gap, hName, hGap⟩ | ⟨gap, rfl, hGap⟩
  · -- Before the opening brace no other mark can be the first.
    have hPlain : ∀ c ∈ gap, isPlain c = true := fun c hc =>
      hFound.plain_front c (hName ▸ List.mem_append_right _ hc)
    exact absurd (append_mark_inj hLead hDirective hPlain isPlain_mark.1 hGap).1 (by decide)
  · cases gap with
    | nil =>
        have hHere : lead ++ '#' :: text = [] ++ openingBrace :: _ := hGap.symm
        exact absurd (append_mark_inj hLead hDirective (by simp) isPlain_mark.1 hHere).1
          (by decide)
    | cons c gap =>
        rw [List.cons_append] at hGap
        obtain ⟨rfl, hInner⟩ := List.cons_eq_cons.mp hGap
        have hBody : gap <+: second := by
          rcases List.append_eq_append_iff.mp hInner with ⟨tail, rfl, hTail⟩ | ⟨tail, rfl, _⟩
          · cases tail with
            | nil => simp
            | cons d tail =>
                rw [List.cons_append] at hTail
                exact (false_of_mark_behind_body hFound.plain_back hLead hDirective (by decide)
                  (List.cons_eq_cons.mp hTail).2 hLength).elim
          · exact List.prefix_append gap tail
        refine ⟨by simp, fun hMem => ?_⟩
        refine ne_closingBrace_of_written hFound _ ?_ rfl
        rw [← List.append_assoc]
        rcases List.mem_append.mp hMem with hOwn | hOwn
        · exact List.mem_append_left _ hOwn
        · rcases List.mem_cons.mp hOwn with hBrace | hOwn
          · rw [hBrace]
            simp
          · exact List.mem_append_right _ (List.mem_cons_of_mem _ (hBody.subset hOwn))

/-- So a directive line inside a declaration stands in its body. -/
theorem ReadsAt.exists_body_before_line {source : Text} {found : Declaration}
    {span : Span} (h : ReadsAt source found span) {line : DirectiveLine}
    (hLine : line.StandsIn source) (hStart : span.start ≤ line.span.start)
    (hStop : line.span.start < span.stop) :
    ∃ front middle back, source = front ++ (middle ++ back) ∧ size front = span.start ∧
      size front + size middle = line.span.start ∧ openingBrace ∈ middle ∧
      closingBrace ∉ middle := by
  obtain ⟨front, taken, back, hSource, rfl, hRead⟩ := h
  obtain ⟨ahead, blanks, text, behind, hSource', hBlanks, _, hSpan⟩ := hLine
  rw [hSpan] at hStart hStop ⊢
  obtain ⟨_, first, second, third, hWritten, hFound⟩ := declarationAt?_eq_some_iff.mp hRead
  have hSplit : source = ahead ++ (blanks ++ '#' :: (text ++ behind)) := by
    rw [hSource']
    simp
  obtain ⟨middle, rfl, hMiddle⟩ := exists_append_of_size_le hSource hSplit hStart
  simp only [size_append] at hStop
  have hLength : back.length < (blanks ++ '#' :: (text ++ behind)).length :=
    length_lt_of_size_lt hMiddle.symm (by omega)
  obtain ⟨hOpened, hOpen⟩ := body_before_mark hFound (hMiddle.symm.trans hWritten)
    (fun c hc => isPlain_of_isSpaceOrTab (hBlanks c hc)) hLength
  exact ⟨front, middle, _, by rw [hSource, hMiddle], rfl, by simp, hOpened, hOpen⟩

end Enumeration

end ValueNames
