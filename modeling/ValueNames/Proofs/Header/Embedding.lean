import ValueNames.Proofs.Header.Enumerations
import ValueNames.Proofs.Scan.Braces

/-!
# Enumerations with conditional members

The members of an enumeration may stand in conditional blocks. Such blocks are embedded in
the text outside all blocks, which is looked at as a whole, so that the enumeration is found
with all its members and with the directive lines between them.

## Main results

* `around_embedding_of_ofText` — an enumeration that begins outside all blocks and braces is
  kept as it stands, with no guard around it.
-/

namespace ValueNames.ScannedHeader

open Scan Conditional

variable {raw : Text} {settings : Settings} {finders : List Finder} {forest : Forest}

/-- What a part has of the enumerations of the whole source is handed out. -/
theorem mem_handsOut_of_region (hScans : settings.Scans raw finders forest) {part : Part}
    (hPart : part ∈ forest.parts (Comment.strip raw) 0 none) {all : List Entity}
    (hAll : Finder.enumerations.find (Comment.strip raw) ⟨0, Text.size (Comment.strip raw)⟩ =
      .ok all)
    {declared : Enumeration} (hDeclared : .enumeration declared ∈ all)
    (hStart : part.region.start ≤ declared.span.start)
    (hStop : declared.span.stop ≤ part.region.stop) :
    ⟨declared.span.start, .entity (.enumeration declared)⟩ ∈
      settings.handsOut raw finders forest := by
  obtain ⟨entities, hFind⟩ := exists_enumerations_of_part hScans hPart
  have hFound : .enumeration declared ∈ entities :=
    Finder.mem_enumerations_of_region (fits_of_mem_parts hScans.isOf hPart).start hAll hDeclared
      hStart hStop hFind
  have hSeen : ⟨declared.span.start, .entity (.enumeration declared)⟩ ∈
      (settings.setup finders raw).seen part.region :=
    (mem_seen_enumeration_iff hScans.finders_eq).mpr ⟨rfl, entities, hFind, hFound⟩
  have hItem : ⟨declared.span.start, .entity (.enumeration declared)⟩ ∈
      (forest.parts (Comment.strip raw) 0 none).flatMap (settings.setup finders raw).itemsOf :=
    List.mem_flatMap.mpr ⟨part, hPart, mem_itemsOf_of_mem_seen hSeen⟩
  exact (mem_handsOut_of_enumeration hScans hItem rfl).1

/--
An enumeration of the source is kept as it stands, with its span and its whole body, and
no guard is around it, if it begins outside all blocks at brace depth zero. The source has
no quotes and well-bracketed braces, as has every outermost block at depth zero. Blocks
inside the enumeration need not be asked about: a directive line in it can stand nowhere
but in its body, where the brace is open.
-/
theorem around_embedding_of_ofText {header : ScannedHeader} (h : ofText raw settings = .ok header)
    (hForest : Forest.IsOf (directiveLines header.source) forest)
    (hQuotes : Unquoted header.source) (hBraces : WellBracketed header.source)
    (hBlocks : ∀ extent ∈ forest.extents none, AtDepthZero header.source extent.start →
      ∀ text, Text.slice? header.source extent.start extent.stop = some text →
        WellBracketed text)
    {all : List Entity}
    (hAll : Finder.enumerations.find header.source ⟨0, Text.size header.source⟩ = .ok all)
    {declared : Enumeration} (hDeclared : .enumeration declared ∈ all)
    (hOutside : ∀ extent ∈ forest.extents none,
      declared.span.start < extent.start ∨ extent.stop ≤ declared.span.start)
    (hDepth : AtDepthZero header.source declared.span.start) :
    header.source = Comment.strip raw ∧
      ∃ before after,
        header.items = before ++ ⟨declared.span.start, .entity (.enumeration declared)⟩ :: after ∧
        Item.Around (before.map (·.item)) [] (after.map (·.item)) := by
  obtain ⟨finders, forest', hScans, rfl⟩ := exists_scans_of_ofText h
  obtain ⟨rfl, _⟩ := Forest.Reads.unique hForest hScans.isOf
  obtain ⟨found, span, own, hReads, hSame, hParts⟩ :=
    Finder.readsAt_of_enumerations (.inl rfl) hAll hDeclared
  cases hSame
  obtain rfl := Finder.span_of_ofParts hParts
  obtain ⟨region, hRegion, hStart, hStop⟩ :=
    hForest.exists_chunk hQuotes hBraces hReads hDepth hOutside hBlocks
  have hItem := mem_handsOut_of_region hScans hRegion hAll hDeclared hStart hStop
  obtain ⟨before, after, hSplit⟩ := List.append_of_mem hItem
  refine ⟨rfl, before, after, hSplit, ?_⟩
  obtain ⟨high, hWithin⟩ := hForest.within
  have hAround := around_guarding_parts (findsInside_finders hScans.finders_eq _ _) hWithin
    ⟨rfl, start_ne_of_declaredAt hForest hReads.declaredAt⟩ hSplit
  rw [Forest.guarding_eq_nil (hForest.enclosing_eq_nil hOutside)] at hAround
  exact hAround

/-- A header with a block around one enumeration and a block among the members of another. -/
def conditionalMember : Text :=
  ("#ifdef B\nenum b \x7bP\x7d;\n#endif\nenum e \x7b\n#if A\nX,\n#endif\n" ++
    "Y\x7d;\n").toList

/-- The enumeration with the conditional member. -/
def conditionalMemberEnumeration : Enumeration where
  name := "e".toList
  typeName := "enum e".toList
  body := [.directive "#if A".toList, .member "X".toList, .directive "#endif".toList,
    .member "Y".toList]
  span := ⟨28, 56⟩

/-- The forest of that header. -/
def conditionalMemberForest : Forest :=
  .branch ⟨⟨.defined, "B".toList⟩, ⟨0, 8⟩⟩ .nil .final ⟨21, 27⟩
    (.branch ⟨⟨.expression, "A".toList⟩, ⟨37, 42⟩⟩ .nil .final ⟨46, 52⟩ .nil)

theorem isOf_conditionalMember :
    Forest.IsOf (directiveLines (Comment.strip conditionalMember)) conditionalMemberForest := by
  have hLines : directiveLines (Comment.strip conditionalMember) =
      [⟨.opens .defined, "B".toList, ⟨0, 8⟩⟩, ⟨.closes .final, [], ⟨21, 27⟩⟩,
        ⟨.opens .expression, "A".toList, ⟨37, 42⟩⟩, ⟨.closes .final, [], ⟨46, 52⟩⟩] := by
    decide +kernel
  rw [hLines]
  exact .opens rfl (.closes (.stop (by simp)) rfl
    (.opens rfl (.closes (.stop (by simp)) rfl (.stop (by simp)))))

/-- That header is accepted. -/
theorem exists_ofText_conditionalMember :
    ∃ header, ofText conditionalMember {} = .ok header ∧
      header.source = Comment.strip conditionalMember := by
  obtain ⟨finders, hFinders⟩ : ∃ finders, ({} : Settings).finders = .ok finders :=
    exists_finders (by decide)
  refine ⟨_, ofText_of_found hFinders ?_ rfl, rfl⟩
  cases hFinders
  decide +kernel

/-- The enumeration is found in the whole source. -/
theorem exists_enumerations_conditionalMember :
    ∃ all, Finder.enumerations.find (Comment.strip conditionalMember)
        ⟨0, Text.size (Comment.strip conditionalMember)⟩ = .ok all ∧
      .enumeration conditionalMemberEnumeration ∈ all := by
  have hFind : (Finder.enumerations.find (Comment.strip conditionalMember)
      ⟨0, Text.size (Comment.strip conditionalMember)⟩).toOption.any
        (.enumeration conditionalMemberEnumeration ∈ ·) = true := by decide +kernel
  cases hAll : Finder.enumerations.find (Comment.strip conditionalMember)
      ⟨0, Text.size (Comment.strip conditionalMember)⟩ with
  | error fault =>
      rw [hAll] at hFind
      cases hFind
  | ok all =>
      rw [hAll] at hFind
      exact ⟨all, rfl, of_decide_eq_true hFind⟩

/--
In that header the enumeration is kept with its conditional member and the directive lines
around it, and stands behind the guard lines of the other block.
-/
theorem around_embedding_conditionalMember :
    ∃ header before after, ofText conditionalMember {} = .ok header ∧
      Forest.IsOf (directiveLines header.source) conditionalMemberForest ∧
      Unquoted header.source ∧ WellBracketed header.source ∧
      (∀ extent ∈ conditionalMemberForest.extents none,
        AtDepthZero header.source extent.start → ∀ text,
          Text.slice? header.source extent.start extent.stop = some text → WellBracketed text) ∧
      AtDepthZero header.source 28 ∧
      header.items =
        before ++ ⟨28, .entity (.enumeration conditionalMemberEnumeration)⟩ :: after ∧
      Item.Around (before.map (·.item)) [] (after.map (·.item)) := by
  obtain ⟨header, hHeader, hSource⟩ := exists_ofText_conditionalMember
  obtain ⟨all, hAll, hMem⟩ := exists_enumerations_conditionalMember
  have hForest := isOf_conditionalMember
  have hQuotes : Unquoted (Comment.strip conditionalMember) := by decide +kernel
  have hBraces : WellBracketed (Comment.strip conditionalMember) := by decide +kernel
  have hAllBlocks : ∀ extent ∈ conditionalMemberForest.extents none,
      ∀ text ∈ Text.slice? (Comment.strip conditionalMember) extent.start extent.stop,
        WellBracketed text := by decide +kernel
  have hBlocks : ∀ extent ∈ conditionalMemberForest.extents none,
      AtDepthZero (Comment.strip conditionalMember) extent.start → ∀ text,
        Text.slice? (Comment.strip conditionalMember) extent.start extent.stop = some text →
          WellBracketed text := fun extent hExtent _ text hText =>
    hAllBlocks extent hExtent text hText
  have hOutside : ∀ extent ∈ conditionalMemberForest.extents none,
      conditionalMemberEnumeration.span.start < extent.start ∨
        extent.stop ≤ conditionalMemberEnumeration.span.start := by decide
  have hDepth : AtDepthZero (Comment.strip conditionalMember) 28 :=
    ⟨(Comment.strip conditionalMember).take 28, (Comment.strip conditionalMember).drop 28,
      by simp, by decide +kernel, by decide +kernel⟩
  rw [← hSource] at hForest hQuotes hBraces hBlocks hAll hDepth
  obtain ⟨_, before, after, hSplit, hAround⟩ := around_embedding_of_ofText hHeader hForest hQuotes
    hBraces hBlocks hAll hMem hOutside hDepth
  exact ⟨header, before, after, hHeader, hForest, hQuotes, hBraces, hBlocks, hDepth, hSplit,
    hAround⟩

end ValueNames.ScannedHeader
