import ValueNames.Enumeration.Declaration

/-!
# How far a declaration reads

A declaration ends with its semicolon. What follows has no influence on how it
is read, and so the same declaration is read in every piece of the source that
holds it whole.

## Main results

* `nameUpTo?_eq_some_iff`, `bodyUpToBrace?_eq_some_iff` — what is read up to a mark.
* `declarationAt?_eq_some_iff` — the pieces of a declaration.
* `exists_taken_of_declarationAt?` — a declaration is read off its own text.
-/

namespace ValueNames

namespace Text

variable {p : Char → Bool} {mark : Char}

/-- A character that ends a run is where the rest begins. -/
theorem dropWhile_append_mark (front rest : Text) (h : p mark = false) :
    (front ++ mark :: rest).dropWhile p = front.dropWhile p ++ mark :: rest := by
  induction front with
  | nil => simp [h]
  | cons c front ih =>
      by_cases hc : p c = true
      · rw [List.cons_append, List.dropWhile_cons_of_pos hc, List.dropWhile_cons_of_pos hc, ih]
      · rw [List.cons_append, List.dropWhile_cons_of_neg hc, List.dropWhile_cons_of_neg hc,
          List.cons_append]

theorem takeWhile_append_mark (front rest : Text) (h : p mark = false) :
    (front ++ mark :: rest).takeWhile p = front.takeWhile p := by
  induction front with
  | nil => simp [h]
  | cons c front ih =>
      by_cases hc : p c = true
      · rw [List.cons_append, List.takeWhile_cons_of_pos hc, List.takeWhile_cons_of_pos hc, ih]
      · rw [List.cons_append, List.takeWhile_cons_of_neg hc, List.takeWhile_cons_of_neg hc]

theorem trimStart_append_mark (front rest : Text) (h : isBlank mark = false) :
    trimStart (front ++ mark :: rest) = trimStart front ++ mark :: rest :=
  dropWhile_append_mark front rest h

end Text

namespace Enumeration

open Text

/-! ## Reading up to a mark -/

/-- A name is read if it and blanks are all there is before the mark. -/
theorem nameUpTo?_eq_some_iff {mark : Char} (hBlank : isBlank mark = false)
    (hWord : isWord mark = false) {s name rest : Text} :
    nameUpTo? mark s = some (name, rest) ↔
      ∃ front, s = front ++ mark :: rest ∧ name = (trimStart front).takeWhile isWord ∧
        trimStart ((trimStart front).dropWhile isWord) = [] := by
  have hFront : ∀ front : Text,
      (trimStart (front ++ mark :: rest)).takeWhile isWord =
          (trimStart front).takeWhile isWord ∧
        trimStart ((trimStart (front ++ mark :: rest)).dropWhile isWord) =
          trimStart ((trimStart front).dropWhile isWord) ++ mark :: rest := by
    intro front
    rw [trimStart_append_mark front rest hBlank, takeWhile_append_mark _ _ hWord,
      dropWhile_append_mark _ _ hWord, trimStart_append_mark _ _ hBlank]
    exact ⟨rfl, rfl⟩
  constructor
  · intro h
    have hSuffix : mark :: rest <:+ s := by
      simp only [nameUpTo?] at h
      split at h
      · cases h
      · rename_i c tail hTail
        split at h
        · rename_i hMark
          cases h
          exact hMark ▸ hTail ▸ (List.dropWhile_suffix _).trans
            ((List.dropWhile_suffix _).trans (List.dropWhile_suffix _))
        · cases h
    obtain ⟨front, rfl⟩ := hSuffix
    obtain ⟨hName, hRest⟩ := hFront front
    refine ⟨front, rfl, ?_⟩
    simp only [nameUpTo?, hName, hRest] at h
    cases hGap : trimStart ((trimStart front).dropWhile isWord) with
    | nil =>
        rw [hGap, List.nil_append] at h
        simp only [if_true, Option.some.injEq, Prod.mk.injEq, and_true] at h
        exact ⟨h.symm, rfl⟩
    | cons c gap =>
        rw [hGap, List.cons_append] at h
        simp only at h
        split at h
        · -- Then the rest would be longer than itself.
          simp only [Option.some.injEq, Prod.mk.injEq] at h
          have hLength := congrArg List.length h.2
          simp only [List.length_append, List.length_cons] at hLength
          omega
        · cases h
  · rintro ⟨front, rfl, rfl, hNone⟩
    obtain ⟨hName, hRest⟩ := hFront front
    simp only [nameUpTo?, hName, hRest, hNone, List.nil_append, if_true]

theorem isBlank_closingBrace : isBlank closingBrace = false := by decide

/-- A body is read if the first closing brace is the mark. -/
theorem bodyUpToBrace?_eq_some_iff {s body rest : Text} :
    bodyUpToBrace? s = some (body, rest) ↔
      ∃ front, s = front ++ closingBrace :: rest ∧ body = trimStart front ∧
        ∀ c ∈ trimStart front, c ≠ closingBrace := by
  constructor
  · intro h
    simp only [bodyUpToBrace?] at h
    split at h
    · cases h
    · rename_i c tail hTail
      cases h
      have hMark : c = closingBrace := by
        have hHead := List.head?_dropWhile_not (· ≠ closingBrace) (trimStart s)
        rw [hTail] at hHead
        simpa using hHead
      subst hMark
      have hBody : trimStart s = (trimStart s).takeWhile (· ≠ closingBrace) ++
          closingBrace :: rest := by
        rw [← hTail, List.takeWhile_append_dropWhile]
      have hSplit : s = s.takeWhile isBlank ++ (trimStart s).takeWhile (· ≠ closingBrace) ++
          closingBrace :: rest := by
        rw [List.append_assoc, ← hBody, trimStart, List.takeWhile_append_dropWhile]
      have hFront : trimStart (s.takeWhile isBlank ++ (trimStart s).takeWhile (· ≠ closingBrace)) =
          (trimStart s).takeWhile (· ≠ closingBrace) := by
        have hTrim := congrArg trimStart hSplit
        rw [trimStart_append_mark _ _ isBlank_closingBrace] at hTrim
        exact List.append_cancel_right (hTrim.symm.trans hBody)
      refine ⟨_, hSplit, hFront.symm, ?_⟩
      rw [hFront]
      intro c hc
      simpa using List.all_eq_true.mp List.all_takeWhile c hc
  · rintro ⟨front, rfl, rfl, hNone⟩
    have hAll : ∀ c ∈ trimStart front, decide (c ≠ closingBrace) = true := by
      intro c hc
      exact decide_eq_true (hNone c hc)
    simp only [bodyUpToBrace?, trimStart_append_mark front rest isBlank_closingBrace]
    rw [List.takeWhile_append_of_pos hAll, List.dropWhile_append_of_pos hAll,
      List.takeWhile_cons_of_neg (by simp), List.dropWhile_cons_of_neg (by simp), List.append_nil]

/-! ## Reading a declaration -/

/--
How a declaration is written: what stands between its word and its opening brace,
between the braces, and between the closing brace and the semicolon.
-/
structure Declaration.WrittenAs (found : Declaration) (first second third : Text) : Prop where
  separate : startsInWord first = false
  tag : found.tag = (trimStart first).takeWhile isWord ∧
    trimStart ((trimStart first).dropWhile isWord) = []
  body : found.body = trimStart second ∧ ∀ c ∈ trimStart second, c ≠ closingBrace
  typedefName : found.typedefName = (trimStart third).takeWhile isWord ∧
    trimStart ((trimStart third).dropWhile isWord) = []

/-- The text of a declaration from its three pieces, and what follows it. -/
def written (first second third rest : Text) : Text :=
  "enum".toList ++ (first ++ openingBrace :: (second ++ closingBrace :: (third ++ ';' :: rest)))

/-- The marks that end a name are neither blank nor part of a word. -/
theorem isMark_openingBrace : isBlank openingBrace = false ∧ isWord openingBrace = false := by
  decide +kernel

theorem isMark_semicolon : isBlank ';' = false ∧ isWord ';' = false := by decide +kernel

theorem startsInWord_append_mark (front rest : Text) {mark : Char} (h : isWord mark = false) :
    startsInWord (front ++ mark :: rest) = startsInWord front := by
  cases front with
  | nil => simp [startsInWord, h]
  | cons c front => rfl

/-- A declaration is read exactly where it is written, if no word goes on there. -/
theorem declarationAt?_eq_some_iff {before : Option Char} {s rest : Text} {found : Declaration} :
    declarationAt? before s = some (found, rest) ↔
      before.any isWord = false ∧ ∃ first second third,
        s = written first second third rest ∧ found.WrittenAs first second third := by
  have hBrace := isMark_openingBrace
  have hSemicolon := isMark_semicolon
  constructor
  · intro h
    unfold declarationAt? at h
    split at h
    · cases h
    · rename_i hBefore
      obtain ⟨afterWord, hWord, h⟩ := Option.bind_eq_some_iff.mp h
      split at h
      · cases h
      · rename_i hEnd
        obtain ⟨⟨tag, inside⟩, hTag, h⟩ := Option.bind_eq_some_iff.mp h
        obtain ⟨⟨body, outside⟩, hBody, h⟩ := Option.bind_eq_some_iff.mp h
        obtain ⟨⟨typedefName, last⟩, hName, h⟩ := Option.map_eq_some_iff.mp h
        obtain ⟨rfl, rfl⟩ := Prod.mk.inj h
        obtain rfl := stripLead?_eq_some_iff.mp hWord
        obtain ⟨first, rfl, hTagRead⟩ := (nameUpTo?_eq_some_iff hBrace.1 hBrace.2).mp hTag
        obtain ⟨second, rfl, hBodyRead⟩ := bodyUpToBrace?_eq_some_iff.mp hBody
        obtain ⟨third, rfl, hNameRead⟩ :=
          (nameUpTo?_eq_some_iff hSemicolon.1 hSemicolon.2).mp hName
        rw [startsInWord_append_mark _ _ hBrace.2, Bool.not_eq_true] at hEnd
        exact ⟨by simpa using hBefore, first, second, third, rfl,
          hEnd, hTagRead, hBodyRead, hNameRead⟩
  · rintro ⟨hBefore, first, second, third, rfl, hWritten⟩
    have hWord : stripLead? "enum".toList (written first second third rest) =
        some (first ++ openingBrace :: (second ++ closingBrace :: (third ++ ';' :: rest))) :=
      stripLead?_eq_some_iff.mpr rfl
    have hEnd : startsInWord (first ++ openingBrace ::
        (second ++ closingBrace :: (third ++ ';' :: rest))) = false := by
      rw [startsInWord_append_mark _ _ hBrace.2]
      exact hWritten.separate
    have hTag : nameUpTo? openingBrace (first ++ openingBrace ::
        (second ++ closingBrace :: (third ++ ';' :: rest))) =
          some (found.tag, second ++ closingBrace :: (third ++ ';' :: rest)) :=
      (nameUpTo?_eq_some_iff hBrace.1 hBrace.2).mpr ⟨first, rfl, hWritten.tag⟩
    have hBody : bodyUpToBrace? (second ++ closingBrace :: (third ++ ';' :: rest)) =
        some (found.body, third ++ ';' :: rest) :=
      bodyUpToBrace?_eq_some_iff.mpr ⟨second, rfl, hWritten.body⟩
    have hName : nameUpTo? ';' (third ++ ';' :: rest) = some (found.typedefName, rest) :=
      (nameUpTo?_eq_some_iff hSemicolon.1 hSemicolon.2).mpr ⟨third, rfl, hWritten.typedefName⟩
    simp only [declarationAt?, hBefore, hWord, hEnd, hTag, hBody, hName, Option.bind_some,
      Option.map_some, Bool.false_eq_true, if_false]

/--
A declaration is read off its own text, whatever follows it, behind any
character that no word goes on from.
-/
theorem exists_taken_of_declarationAt? {before : Option Char} {s rest : Text}
    {found : Declaration} (h : declarationAt? before s = some (found, rest)) :
    ∃ taken, s = taken ++ rest ∧ (∃ tail, taken = 'e' :: tail) ∧ before.any isWord = false ∧
      ∀ before' rest', before'.any isWord = false →
        declarationAt? before' (taken ++ rest') = some (found, rest') := by
  obtain ⟨hBefore, first, second, third, rfl, hWritten⟩ := declarationAt?_eq_some_iff.mp h
  have hText : ∀ rest', written first second third [] ++ rest' =
      written first second third rest' := by
    intro rest'
    simp [written]
  refine ⟨written first second third [], (hText rest).symm, ⟨_, rfl⟩, hBefore, ?_⟩
  intro before' rest' hBefore'
  rw [hText]
  exact declarationAt?_eq_some_iff.mpr ⟨hBefore', first, second, third, rfl, hWritten⟩

end Enumeration

end ValueNames
