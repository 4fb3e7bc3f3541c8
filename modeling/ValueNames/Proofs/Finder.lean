import ValueNames.Header
import ValueNames.Proofs.Enumeration.Reading
import ValueNames.Proofs.Scan.Found
import ValueNames.Proofs.Text.Search

/-!
# What the finders of a header find

Enumerations are found one by one, macros as the group of all definitions in a
region. Either way what is found starts inside the region.

## Main results

* `exists_found_of_enumerations` — an enumeration comes from a declaration that was read.
* `readsAt_of_slice`, `exists_readsAt_slice` — a declaration can be read in a part of a
  source exactly if it can be read in the source and lies in the part.
* `readsAt_of_enumerations` — an enumeration found in a part of a source can be
  read in the source where it stands.
* `Enumeration.ReadsAt.unique` — at one offset of a source only one declaration can be read.
* `enumerations_ne_nil` — and no piece of the source that holds it is without enumerations.
* `findsInside_finders` — the finders of a header find inside the regions they look at.
-/

namespace ValueNames

open Scan

namespace Finder

variable {source : Text} {region : Span} {entities : List Entity} {entity : Entity}

/-- An enumeration is that of a declaration read in the region. -/
theorem exists_found_of_enumerations (h : enumerations.find source region = .ok entities)
    (hEntity : entity ∈ entities) :
    ∃ text found span declared, Text.slice? source region.start region.stop = some text ∧
      (found, span) ∈ Enumeration.declaration.search text ∧ entity = .enumeration declared ∧
      Enumeration.ofParts found.tag found.body found.typedefName (span.shift region.start) =
        .ok declared := by
  obtain ⟨text, hText, hEntities⟩ := bind_eq_ok_iff.mp h
  obtain ⟨⟨found, span⟩, hFound, hParts⟩ := exists_of_mem_mapM hEntities hEntity
  obtain ⟨declared, hDeclared, rfl⟩ := map_eq_ok_iff.mp hParts
  exact ⟨text, found, span, declared, regionText_eq_ok_iff.mp hText, hFound, rfl, hDeclared⟩

/-- The enumeration of a declaration has the span of the declaration. -/
theorem span_of_ofParts {tag body typedefName : Text} {span : Span} {declared : Enumeration}
    (h : Enumeration.ofParts tag body typedefName span = .ok declared) : declared.span = span := by
  unfold Enumeration.ofParts at h
  split at h
  · cases h
  · split at h
    · cases h
    · split at h
      · cases h
        rfl
      · cases h
        rfl

/-- A group of macros stands where one of its definitions was read in the region. -/
theorem exists_span_of_macroGroup {lead : Text} {finder : Finder}
    (hFinder : macroGroup lead = .ok finder) (h : finder.find source region = .ok entities)
    (hEntity : entity ∈ entities) :
    ∃ group text value span, entity = .macroGroup group ∧
      Text.slice? source region.start region.stop = some text ∧
      (value, span) ∈ (MacroGroup.definition lead).search text ∧
      group.span? = some (span.shift region.start) := by
  unfold macroGroup at hFinder
  split at hFinder
  · cases hFinder
  · cases hFinder
    obtain ⟨text, hText, rfl⟩ := map_eq_ok_iff.mp h
    obtain ⟨group, hGroup, rfl⟩ := Option.map_eq_some_iff.mp (Option.mem_toList.mp hEntity)
    unfold MacroGroup.ofDefinitions? at hGroup
    split at hGroup
    · cases hGroup
    · rename_i hSome
      cases hGroup
      cases hSearch : (MacroGroup.definition lead).search text with
      | nil => simp [definitionsIn, hSearch] at hSome
      | cons first rest =>
          refine ⟨_, text, first.1, first.2, rfl, regionText_eq_ok_iff.mp hText,
            by simp [hSearch], ?_⟩
          simp [MacroGroup.span?, definitionsIn, hSearch]

/-- A span in the text of a region, moved to its place in the source, starts in the region. -/
theorem shift_start_lt {text : Text} {span : Span}
    (hText : Text.slice? source region.start region.stop = some text)
    (hSpan : span.start < Text.size text) :
    region.start ≤ (span.shift region.start).start ∧
      (span.shift region.start).start < region.stop := by
  obtain ⟨front, back, _, hStart, hStop⟩ := Text.slice?_eq_some_iff.mp hText
  simp only [Span.shift]
  omega

/-- An enumeration lies inside the region that it was found in. -/
theorem inside_of_enumerations {declared : Enumeration}
    (h : enumerations.find source region = .ok entities)
    (hEntity : .enumeration declared ∈ entities) :
    region.start ≤ declared.span.start ∧ declared.span.stop ≤ region.stop := by
  obtain ⟨text, found, span, own, hText, hFound, hSame, hParts⟩ :=
    exists_found_of_enumerations h hEntity
  cases hSame
  obtain ⟨front, back, _, hStart, hStop⟩ := Text.slice?_eq_some_iff.mp hText
  have hEnd : span.stop ≤ Text.size text := Recogniser.mem_search_stop hFound
  rw [span_of_ofParts hParts]
  simp only [Span.shift]
  omega

end Finder

/-! ## Enumerations and their places -/

/-- A span of a source is that of a declaration, read where it stands. -/
def Enumeration.DeclaredAt (source : Text) (span : Span) : Prop :=
  ∃ front taken back found, source = front ++ (taken ++ back) ∧
    span = ⟨Text.size front, Text.size front + Text.size taken⟩ ∧
    Enumeration.declarationAt? front.getLast? (taken ++ back) = some (found, back)

/-- The declaration at a span of a source is the given one. -/
def Enumeration.ReadsAt (source : Text) (found : Declaration) (span : Span) : Prop :=
  ∃ front taken back, source = front ++ (taken ++ back) ∧
    span = ⟨Text.size front, Text.size front + Text.size taken⟩ ∧
    Enumeration.declarationAt? front.getLast? (taken ++ back) = some (found, back)

namespace Enumeration

variable {source : Text} {span : Span}

/-- What a search finds can be read where it stands. -/
theorem readsAt_of_mem_search {found : Declaration}
    (h : (found, span) ∈ declaration.search source) : ReadsAt source found span :=
  Recogniser.exists_read_of_mem_search h

theorem ReadsAt.declaredAt {found : Declaration} (h : ReadsAt source found span) :
    DeclaredAt source span := by
  obtain ⟨front, taken, back, hSource, hSpan, hRead⟩ := h
  exact ⟨front, taken, back, found, hSource, hSpan, hRead⟩

theorem ReadsAt.stop_le_size {found : Declaration} (h : ReadsAt source found span) :
    span.stop ≤ Text.size source := by
  obtain ⟨front, taken, back, rfl, rfl, _⟩ := h
  simp only [Text.size_append]
  omega

/-- At one offset of a source only one declaration can be read. -/
theorem ReadsAt.unique {found other : Declaration} {span' : Span} (h : ReadsAt source found span)
    (h' : ReadsAt source other span') (hStart : span.start = span'.start) :
    found = other ∧ span = span' := by
  obtain ⟨front, taken, back, rfl, rfl, hRead⟩ := h
  obtain ⟨front', taken', back', hSource, rfl, hRead'⟩ := h'
  obtain ⟨rfl, hRest⟩ := Text.append_inj_of_size hSource hStart
  rw [← hRest, hRead] at hRead'
  simp only [Option.some.injEq, Prod.mk.injEq] at hRead'
  obtain ⟨rfl, rfl⟩ := hRead'
  obtain rfl := List.append_cancel_right hRest
  exact ⟨rfl, rfl⟩

/-- A declaration begins with its keyword. -/
theorem DeclaredAt.exists_keyword (h : DeclaredAt source span) :
    ∃ front tail, source = front ++ 'e' :: tail ∧ span.start = Text.size front ∧
      span.start < span.stop := by
  obtain ⟨front, taken, back, found, rfl, rfl, hRead⟩ := h
  obtain ⟨own, hOwn, ⟨tail, hTail⟩, _⟩ := exists_taken_of_declarationAt? hRead
  obtain rfl := List.append_cancel_right hOwn
  subst hTail
  have hKeyword : 0 < 'e'.utf8Size := 'e'.utf8Size_pos
  refine ⟨front, tail ++ back, rfl, rfl, ?_⟩
  simp only [Text.size_cons]
  omega

theorem DeclaredAt.start_lt_stop (h : DeclaredAt source span) : span.start < span.stop := by
  obtain ⟨_, _, _, _, hLess⟩ := h.exists_keyword
  exact hLess

/-- No directive line begins where a declaration does. -/
theorem DeclaredAt.start_ne_of_standsIn (h : DeclaredAt source span) {line : DirectiveLine}
    (hLine : line.StandsIn source) : span.start ≠ line.span.start := by
  intro hSame
  obtain ⟨front, tail, hSource, hStart, _⟩ := h.exists_keyword
  obtain ⟨front', blanks, text, back, hSource', hBlanks, _, hSpan⟩ := hLine
  have hSize : Text.size front = Text.size front' := by
    rw [← hStart, hSame, hSpan]
  have hBoth : front ++ 'e' :: tail = front' ++ (blanks ++ '#' :: text ++ back) := by
    rw [← hSource, hSource', List.append_assoc]
  obtain ⟨_, hTail⟩ := Text.append_inj_of_size hBoth hSize
  cases blanks with
  | nil => simp at hTail
  | cons c blanks =>
      have hBlank : Text.isSpaceOrTab 'e' = true := by
        have hHead : 'e' = c := (List.cons_eq_cons.mp hTail).1
        rw [hHead]
        exact hBlanks c (by simp)
      exact absurd hBlank (by decide)

end Enumeration

namespace Finder

variable {source : Text} {region : Span} {entities : List Entity} {entity : Entity}

theorem getLast?_append_cons (ahead : Text) (c : Char) (front : Text) :
    (ahead ++ c :: front).getLast? = (c :: front).getLast? := by
  rw [List.getLast?_append, List.getLast?_cons, Option.some_or]

/--
A declaration of a region that begins with a line end, or at the start of the
source, can be read in the source where it stands: the character before it is
the same.
-/
theorem readsAt_of_slice (hStart : region.start = 0 ∨ Text.IsLineEnd source region.start)
    {text : Text} (hText : Text.slice? source region.start region.stop = some text)
    {found : Enumeration.Declaration} {span : Span} (h : Enumeration.ReadsAt text found span) :
    Enumeration.ReadsAt source found (span.shift region.start) := by
  obtain ⟨ahead, behind, hSource, hAhead, hStop⟩ := Text.slice?_eq_some_iff.mp hText
  obtain ⟨front, taken, back, rfl, rfl, hRead⟩ := h
  obtain ⟨own, hOwn, ⟨tail, hTail⟩, hBefore, hAgain⟩ :=
    Enumeration.exists_taken_of_declarationAt? hRead
  obtain rfl := List.append_cancel_right hOwn
  refine ⟨ahead ++ front, taken, back ++ behind, ?_, ?_, ?_⟩
  · rw [hSource]
    simp
  · rw [Span.shift, Text.size_append, hAhead]
    simp only [Span.mk.injEq]
    omega
  · apply hAgain
    cases front with
    | nil =>
        -- The region begins with the declaration, so not with a line end.
        have hEmpty : ahead = [] := by
          rcases hStart with hZero | ⟨front', back', hSplit, hLineEnd, hSize⟩
          · exact Text.eq_nil_of_size_eq_zero (hAhead.trans hZero)
          · have hBoth : ahead ++ (taken ++ back ++ behind) = front' ++ back' := by
              rw [← hSplit, hSource]
              simp
            obtain ⟨_, hBack⟩ := Text.append_inj_of_size hBoth (hAhead.trans hSize.symm)
            rw [hTail] at hBack
            rcases hLineEnd with rfl | ⟨next, rfl⟩
            · simp at hBack
            · simp at hBack
        rw [hEmpty]
        rfl
    | cons c front =>
        rw [getLast?_append_cons]
        exact hBefore

/-- A declaration of the source can be read in every region that holds it. -/
theorem exists_readsAt_slice {text : Text}
    (hText : Text.slice? source region.start region.stop = some text)
    {found : Enumeration.Declaration} {span : Span} (h : Enumeration.ReadsAt source found span)
    (hStart : region.start ≤ span.start) (hStop : span.stop ≤ region.stop) :
    ∃ own, own.shift region.start = span ∧ Enumeration.ReadsAt text found own := by
  obtain ⟨front, taken, back, hSource, rfl, hRead⟩ := h
  obtain ⟨own, hOwn, _, hBefore, hAgain⟩ := Enumeration.exists_taken_of_declarationAt? hRead
  obtain rfl := List.append_cancel_right hOwn
  -- The region begins before the declaration and ends behind it.
  obtain ⟨ahead, middle, last, behind, rfl, hAhead, rfl, _⟩ :=
    Text.exists_around_of_slice? hSource hText hStart hStop
  refine ⟨⟨Text.size middle, Text.size middle + Text.size taken⟩, ?_, middle, taken, last, rfl,
    rfl, hAgain _ _ ?_⟩
  · simp only [Span.shift, Text.size_append, Span.mk.injEq]
    omega
  · cases middle with
    | nil => rfl
    | cons c middle =>
        rw [getLast?_append_cons] at hBefore
        exact hBefore

/-- An enumeration found in such a region is that of a declaration of the source. -/
theorem readsAt_of_enumerations
    (hStart : region.start = 0 ∨ Text.IsLineEnd source region.start)
    (h : enumerations.find source region = .ok entities) (hEntity : entity ∈ entities) :
    ∃ found span declared, Enumeration.ReadsAt source found span ∧
      entity = .enumeration declared ∧
      Enumeration.ofParts found.tag found.body found.typedefName span = .ok declared := by
  obtain ⟨text, found, span, declared, hText, hFound, hSame, hParts⟩ :=
    exists_found_of_enumerations h hEntity
  have hReads := readsAt_of_slice hStart hText (Enumeration.readsAt_of_mem_search hFound)
  exact ⟨found, _, declared, hReads, hSame, hParts⟩

theorem declaredAt_of_enumerations
    (hStart : region.start = 0 ∨ Text.IsLineEnd source region.start)
    (h : enumerations.find source region = .ok entities) (hEntity : entity ∈ entities) :
    ∃ declared, entity = .enumeration declared ∧
      Enumeration.DeclaredAt source declared.span := by
  obtain ⟨found, span, declared, hReads, hSame, hParts⟩ :=
    readsAt_of_enumerations hStart h hEntity
  refine ⟨declared, hSame, ?_⟩
  rw [span_of_ofParts hParts]
  exact hReads.declaredAt

/-- Where a region holds a declaration, some enumeration is found. -/
theorem enumerations_ne_nil {span : Span} (hDeclared : Enumeration.DeclaredAt source span)
    (hStart : region.start ≤ span.start) (hStop : span.stop ≤ region.stop)
    (h : enumerations.find source region = .ok entities) : entities ≠ [] := by
  obtain ⟨front, taken, back, found, hSource, hSpan, hRead⟩ := hDeclared
  obtain ⟨text, hText, hEntities⟩ := bind_eq_ok_iff.mp h
  obtain ⟨own, _, front', taken', back', rfl, _, hOwn⟩ :=
    exists_readsAt_slice (regionText_eq_ok_iff.mp hText)
      ⟨front, taken, back, hSource, hSpan, hRead⟩ hStart hStop
  have hSome : Enumeration.declaration.search (front' ++ (taken' ++ back')) ≠ [] :=
    Recogniser.search_ne_nil hOwn
  obtain ⟨first, hFirst⟩ := List.exists_mem_of_ne_nil _ hSome
  obtain ⟨entity, hEntity, _⟩ := exists_mem_of_mapM hEntities hFirst
  exact List.ne_nil_of_mem hEntity

end Finder

/-- The finders of a header find entities that start inside the region they look at. -/
theorem findsInside_finders {settings : Settings} {finders : List Finder}
    (h : settings.finders = .ok finders) (source : Text) (unguardedOutermost : Bool) :
    (Setup.mk source finders unguardedOutermost).FindsInside := by
  obtain ⟨macros, hMacros, rfl⟩ := map_eq_ok_iff.mp h
  intro finder hFinder region entities hFind entity hEntity
  simp only [List.mem_cons, List.not_mem_nil, or_false] at hFinder
  rcases hFinder with rfl | rfl
  · obtain ⟨text, found, span, declared, hText, hFound, rfl, hParts⟩ :=
      Finder.exists_found_of_enumerations hFind hEntity
    refine ⟨declared.span, rfl, ?_⟩
    rw [Finder.span_of_ofParts hParts]
    exact Finder.shift_start_lt hText (Recogniser.mem_search_start hFound)
  · obtain ⟨group, text, value, span, rfl, hText, hFound, hSpan⟩ :=
      Finder.exists_span_of_macroGroup hMacros hFind hEntity
    exact ⟨_, hSpan, Finder.shift_start_lt hText (Recogniser.mem_search_start hFound)⟩

end ValueNames
