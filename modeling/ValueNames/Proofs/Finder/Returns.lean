import ValueNames.Proofs.Enumeration.Returns
import ValueNames.Proofs.Finder
import ValueNames.Proofs.MacroGroup.Returns

/-!
# Finders and carriage returns

The finders of a header find the same without the carriage returns of a text. Everything is
found where it stands there.

## Main results

* `Finder.blind_enumerations`, `Finder.blind_macroGroup` — the two finders.
* `blind_of_mem_finders` — the finders of a header.
-/

namespace ValueNames

open Text

/-- What is found in a piece of a text stands at the offset that it has there. -/
theorem Span.bareIn_shift {source text : Text} {region span : Span}
    (hText : slice? source region.start region.stop = some text) (hStart : span.start ≤ size text)
    (hStop : span.stop ≤ size text) :
    (span.shift region.start).bareIn source =
      (span.bareIn text).shift (region.bareIn source).start := by
  obtain ⟨front, back, rfl, hFront, _⟩ := slice?_eq_some_iff.mp hText
  have hOffset : ∀ offset, offset ≤ size text →
      bareOffset (front ++ text ++ back) (offset + region.start) =
        bareOffset text offset + bareOffset (front ++ text ++ back) region.start := by
    intro offset hInside
    rw [← hFront, Nat.add_comm offset, List.append_assoc, bareOffset_append,
      bareOffset_append_left hInside, bareOffset_size, Nat.add_comm]
  show Span.mk (bareOffset _ (span.start + region.start))
    (bareOffset _ (span.stop + region.start)) = _
  rw [hOffset _ hStart, hOffset _ hStop]
  rfl

/-- A character of a piece of a text is one of the text. -/
theorem Text.IsSolid.of_slice? {source text : Text} {region : Span}
    (hText : slice? source region.start region.stop = some text) {offset : Nat}
    (h : IsSolid text offset) : IsSolid source (offset + region.start) := by
  obtain ⟨ahead, behind, rfl, hAhead, _⟩ := slice?_eq_some_iff.mp hText
  obtain ⟨front, c, back, rfl, hc, rfl⟩ := h
  refine ⟨ahead ++ front, c, back ++ behind, by simp, hc, ?_⟩
  rw [size_append, hAhead, Nat.add_comm]

/--
A finder finds the same without carriage returns, and finds nothing that begins with a
carriage return.
-/
structure Finder.Blind (finder : Finder) : Prop where
  find_bare : ∀ {source text : Text} {region : Span}, regionText source region = .ok text →
    Paired text → finder.find (bare source) (region.bareIn source) =
      bareResult source (List.map (Entity.bareIn source)) (finder.find source region)
  isSolid : ∀ {source : Text} {region : Span} {entities : List Entity},
    finder.find source region = .ok entities → ∀ entity ∈ entities, ∀ span ∈ entity.span?,
      IsSolid source span.start

theorem regionText_bare {source text : Text} {region : Span}
    (h : regionText source region = .ok text) :
    regionText (bare source) (region.bareIn source) = .ok (bare text) :=
  regionText_eq_ok_iff.mpr (slice?_bare (regionText_eq_ok_iff.mp h))

namespace Finder

theorem blind_enumerations : enumerations.Blind where
  find_bare := by
    intro source text region hText hPaired
    show (regionText (bare source) (region.bareIn source)).bind _ =
      bareResult source _ ((regionText source region).bind _)
    rw [hText, regionText_bare hText]
    show (Enumeration.declaration.search (bare text)).mapM _ = _
    rw [Enumeration.blind_declaration.search_bare hPaired]
    refine mapResult_mapM fun find hFind => ?_
    obtain ⟨found, span⟩ := find
    obtain ⟨front, taken, back, hSplit, hSpan, hRead⟩ := Recogniser.exists_read_of_mem_search hFind
    have hBody := Enumeration.paired_body (hSplit ▸ hPaired).of_append_right hRead
    have hPlace := Span.bareIn_shift (regionText_eq_ok_iff.mp hText)
      (Nat.le_of_lt (Recogniser.mem_search_start hFind)) (Recogniser.mem_search_stop hFind)
    rw [enumerationOf, enumerationOf]
    show (Enumeration.ofParts found.tag (bare found.body) found.typedefName
      ((span.bareIn text).shift (region.bareIn source).start)).map _ = _
    rw [← hPlace, Enumeration.ofParts_bare source _ hBody]
    exact mapResult_map fun _ _ => rfl
  isSolid := by
    intro source region entities hFind entity hEntity span hSpan
    obtain ⟨text, found, own, declared, hText, hFound, rfl, hParts⟩ :=
      exists_found_of_enumerations hFind hEntity
    obtain rfl : declared.span = span := by simpa [Entity.span?] using hSpan
    rw [span_of_ofParts hParts]
    exact (Enumeration.blind_declaration.isSolid_start hFound).of_slice? hText

variable {lead : Text} {finder : Finder}

theorem definitionsIn_bare (hFeed : '\n' ∉ lead) {source text : Text} {region : Span}
    (hText : regionText source region = .ok text) (hPaired : Paired text) :
    definitionsIn lead (region.bareIn source).start (bare text) =
      (definitionsIn lead region.start text).map (MacroDefinition.bareIn source) := by
  rw [definitionsIn, definitionsIn, (MacroGroup.blind_definition hFeed).search_bare hPaired,
    List.map_map, List.map_map]
  refine List.map_congr_left fun find hFind => ?_
  obtain ⟨⟨name, value⟩, span⟩ := find
  have hPlace := Span.bareIn_shift (regionText_eq_ok_iff.mp hText)
    (Nat.le_of_lt (Recogniser.mem_search_start hFind)) (Recogniser.mem_search_stop hFind)
  show MacroDefinition.mk name value ((span.bareIn text).shift _) = _
  rw [← hPlace]
  rfl

theorem blind_macroGroup (hFeed : '\n' ∉ lead) (h : macroGroup lead = .ok finder) :
    finder.Blind := by
  constructor
  · intro source text region hText hPaired
    unfold macroGroup at h
    split at h
    · cases h
    cases h
    simp only [hText, regionText_bare hText, Except.map, definitionsIn_bare hFeed hText hPaired]
    cases definitionsIn lead region.start text with
    | nil => rfl
    | cons first rest => rfl
  · intro source region entities hFind entity hEntity span hSpan
    obtain ⟨group, text, value, own, rfl, hText, hFound, hOwn⟩ :=
      exists_span_of_macroGroup h hFind hEntity
    obtain rfl : own.shift region.start = span := Option.some.inj (hOwn.symm.trans hSpan)
    exact ((MacroGroup.blind_definition hFeed).isSolid_start hFound).of_slice? hText

end Finder

/-- The finders of a header find the same without carriage returns. -/
theorem blind_of_mem_finders {settings : Settings} {finders : List Finder}
    (h : settings.finders = .ok finders) (hFeed : '\n' ∉ settings.macroLead) :
    ∀ finder ∈ finders, finder.Blind := by
  obtain ⟨macros, hMacros, rfl⟩ := map_eq_ok_iff.mp h
  intro finder hFinder
  rcases List.mem_cons.mp hFinder with rfl | hFinder
  · exact Finder.blind_enumerations
  · obtain rfl := List.mem_singleton.mp hFinder
    exact Finder.blind_macroGroup hFeed hMacros

end ValueNames
