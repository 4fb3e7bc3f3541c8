import ValueNames.Proofs.Header.Fidelity
import ValueNames.Proofs.MacroGroup.Finding
import ValueNames.Proofs.Scan.Parts

/-!
# Which macro groups a header keeps

Every part of a header that defines macros has a group of them, and a group
takes in the definitions of the branches inside its part. Groups are told apart
by their first definitions alone: of the groups that begin with the same one,
only that of the innermost part is kept. What another of them defines besides
is lost, unless a group that begins elsewhere has it too.

## Main results

* `mem_handsOut_iff` — a group is kept if no part looked at before has a
  group at the same offset.
* `mem_definitions_iff_of_ofText` — a definition is kept exactly if some part that
  has it has no part inside whose group begins with the same definition.
-/

namespace ValueNames

open Scan Conditional MacroGroup

/-- A scan of a raw text that has gone through: its finders, its forest, and no call that failed. -/
structure Settings.Scans (settings : Settings) (raw : Text) (finders : List Finder)
    (forest : Forest) : Prop where
  finders_eq : settings.finders = .ok finders
  isOf : Forest.IsOf (directiveLines (Comment.strip raw)) forest
  gathered : ∃ found, (settings.setup finders raw).gather
    (forest.parts (Comment.strip raw) 0 none) = .ok found

/-- What a scan of a raw text hands out: the items of the parts, ordered. -/
def Settings.handsOut (settings : Settings) (raw : Text) (finders : List Finder)
    (forest : Forest) : List Placed :=
  Placed.ordered ((forest.parts (Comment.strip raw) 0 none).flatMap
    (settings.setup finders raw).itemsOf)

namespace ScannedHeader

variable {raw : Text} {settings : Settings} {finders : List Finder} {forest : Forest}

/-- An accepted header comes from a scan that has gone through, and has its ordered items. -/
theorem exists_scans_of_ofText {header : ScannedHeader} (h : ofText raw settings = .ok header) :
    ∃ finders forest, settings.Scans raw finders forest ∧
      header = ⟨Comment.strip raw, settings.handsOut raw finders forest⟩ := by
  obtain ⟨finders, hFinders, _⟩ := bind_eq_ok_iff.mp h
  rw [ofText_eq hFinders] at h
  obtain ⟨items, hItems, rfl⟩ := map_eq_ok_iff.mp h
  have hInside : (settings.setup finders raw).FindsInside := findsInside_finders hFinders _ _
  obtain ⟨forest, found, hForest, hFound, rfl⟩ := exists_gather_of_collect hInside hItems
  refine ⟨finders, forest, ⟨hFinders, hForest, found, hFound⟩, ?_⟩
  rw [Setup.gather_eq hInside hFound]
  rfl

/-- A scan that goes through gives what is found in its parts, ordered. -/
theorem ofText_of_found (hFinders : settings.finders = .ok finders) {found : List Placed}
    (hRun : ((State.initial.run (settings.setup finders raw)
      (directiveLines (Comment.strip raw))).map State.ready).toOption.isSome = true)
    (hFound : (State.initial.outline.parts (Comment.strip raw)
      (directiveLines (Comment.strip raw))).flatMap (settings.setup finders raw).itemsOf = found) :
    ofText raw settings = .ok ⟨Comment.strip raw, Placed.ordered found⟩ := by
  have hInside : (settings.setup finders raw).FindsInside := findsInside_finders hFinders _ _
  obtain ⟨items, hItems⟩ := Option.isSome_iff_exists.mp hRun
  obtain ⟨forest, hForest, hOrdered⟩ := eq_ordered_of_collect hInside (collect_of_run hItems)
  rw [← Outline.parts_eq_of_isOf hForest] at hOrdered
  have hSame : items = Placed.ordered found := by
    rw [hOrdered, ← hFound]
    rfl
  rw [ofText_eq hFinders, collect_of_run hItems, hSame]
  rfl

/-- Where what is found is in order already, the scan gives it as it is. -/
theorem ofText_of_ascending (hFinders : settings.finders = .ok finders) {found : List Placed}
    (hRun : ((State.initial.run (settings.setup finders raw)
      (directiveLines (Comment.strip raw))).map State.ready).toOption.isSome = true)
    (hFound : (State.initial.outline.parts (Comment.strip raw)
      (directiveLines (Comment.strip raw))).flatMap (settings.setup finders raw).itemsOf = found)
    (hAscending : Placed.Ascending found) (hFirst : Placed.keepFirst none found = found) :
    ofText raw settings = .ok ⟨Comment.strip raw, found⟩ := by
  rw [ofText_of_found hFinders hRun hFound, Placed.ordered_of_ascending hAscending hFirst]

/-! ## Groups among the items -/

/-- What is seen of macros in a region is its group. -/
theorem mem_seen_group_iff (hFinders : settings.finders = .ok finders) {region : Span}
    {offset : Nat} {group : MacroGroup} :
    ⟨offset, .entity (.macroGroup group)⟩ ∈ (settings.setup finders raw).seen region ↔
      inRegion? settings.macroLead (Comment.strip raw) region = some group ∧
        group.span?.map (·.start) = some offset := by
  obtain ⟨macros, hMacros, rfl⟩ := map_eq_ok_iff.mp hFinders
  rw [Setup.mem_seen_iff]
  constructor
  · rintro ⟨finder, hFinder, entities, hFind, entity, hEntity, hPlaced⟩
    obtain ⟨span, hSpan, hSame⟩ := Option.map_eq_some_iff.mp hPlaced
    obtain ⟨rfl, rfl⟩ : span.start = offset ∧ entity = .macroGroup group := by
      simpa using hSame
    have hKinds : finder = Finder.enumerations ∨ finder = macros := by
      simpa [Settings.setup] using hFinder
    rcases hKinds with rfl | rfl
    · obtain ⟨_, _, _, _, _, _, hOther, _⟩ := Finder.exists_found_of_enumerations hFind hEntity
      cases hOther
    · rw [find_eq_inRegion? hMacros] at hFind
      obtain ⟨text, _, rfl⟩ := map_eq_ok_iff.mp hFind
      have hGroup : inRegion? settings.macroLead (Comment.strip raw) region = some group := by
        simpa [Settings.setup] using hEntity
      exact ⟨hGroup, Option.map_eq_some_iff.mpr ⟨span, hSpan, rfl⟩⟩
  · rintro ⟨hGroup, hStart⟩
    obtain ⟨span, hSpan, rfl⟩ := Option.map_eq_some_iff.mp hStart
    obtain ⟨text, hText, _⟩ := inRegion?_eq_some_iff.mp hGroup
    have hFind : macros.find (Comment.strip raw) region = .ok [.macroGroup group] := by
      rw [find_eq_inRegion? hMacros, regionText_eq_ok_iff.mpr hText, hGroup]
      rfl
    refine ⟨macros, by simp [Settings.setup], _, hFind, _, List.mem_singleton_self _, ?_⟩
    rw [Entity.placed?, Entity.span?, hSpan]
    rfl

/-- The group of a part is defined in the source from its first definition on. -/
theorem exists_first_of_part (hScans : settings.Scans raw finders forest) {part : Part}
    (hPart : part ∈ forest.parts (Comment.strip raw) 0 none) {group : MacroGroup}
    (hGroup : inRegion? settings.macroLead (Comment.strip raw) part.region = some group) :
    ∃ first, group.definitions.head? = some first ∧ group.span? = some first.span ∧
      DefinedAt settings.macroLead (Comment.strip raw) first ∧
      part.region.start ≤ first.span.start ∧ first.span.stop ≤ part.region.stop := by
  obtain ⟨first, hHead, hMem, hSpan⟩ := exists_first_of_inRegion? hGroup
  exact ⟨first, hHead, hSpan, definedAt_of_mem (hScans.isOf.isLineStart_stop hPart) hGroup hMem⟩

/-- Where a macro is defined, a part has no entity but its group. -/
theorem exists_group_of_mem_seen (hScans : settings.Scans raw finders forest) {part : Part}
    (hPart : part ∈ forest.parts (Comment.strip raw) 0 none) {defined : MacroDefinition}
    (hDefined : DefinedAt settings.macroLead (Comment.strip raw) defined) {placed : Placed}
    (hSeen : placed ∈ (settings.setup finders raw).seen part.region)
    (hOffset : placed.offset = defined.span.start) :
    ∃ group, placed = ⟨defined.span.start, .entity (.macroGroup group)⟩ ∧
      inRegion? settings.macroLead (Comment.strip raw) part.region = some group := by
  have hInside : (settings.setup finders raw).FindsInside :=
    findsInside_finders hScans.finders_eq _ _
  obtain ⟨offset, item⟩ := placed
  obtain rfl : offset = defined.span.start := hOffset
  cases item with
  | guard line =>
      obtain ⟨hEntity, _⟩ := Setup.mem_seen hInside hSeen
      cases hEntity
  | entity found =>
      cases found with
      | enumeration declared =>
          obtain ⟨hStart, hDeclared⟩ := declaredAt_of_mem_seen hScans.finders_eq
            (fits_of_mem_parts hScans.isOf hPart) hSeen
          exact absurd hStart (hDefined.start_ne_of_declaredAt hDeclared)
      | macroGroup group => exact ⟨group, rfl, ((mem_seen_group_iff hScans.finders_eq).mp hSeen).1⟩

/-- The entities of a part among its items are those seen in its region. -/
theorem mem_itemsOf_of_mem_seen {setup : Setup} {part : Part} {placed : Placed}
    (h : placed ∈ setup.seen part.region) : placed ∈ setup.itemsOf part := by
  cases part with
  | topLevel region => exact h
  | branch scope outermost =>
      simp only [Setup.itemsOf]
      split
      · exact h
      · exact List.mem_cons_of_mem _ (List.mem_append_left _ h)

/-- At the first definition of a group, the group is all that a part can have. -/
theorem head_filter_itemsOf_iff (hScans : settings.Scans raw finders forest) {part : Part}
    (hPart : part ∈ forest.parts (Comment.strip raw) 0 none) {defined : MacroDefinition}
    (hDefined : DefinedAt settings.macroLead (Comment.strip raw) defined) {placed : Placed} :
    (((settings.setup finders raw).itemsOf part).filter
        (Placed.isEntityAt defined.span.start)).head? = some placed ↔
      ∃ group, placed = ⟨defined.span.start, .entity (.macroGroup group)⟩ ∧
        inRegion? settings.macroLead (Comment.strip raw) part.region = some group ∧
        group.span?.map (·.start) = some defined.span.start := by
  have hOnly : ∀ other, (((settings.setup finders raw).itemsOf part).filter
      (Placed.isEntityAt defined.span.start)).head? = some other →
      ∃ group, other = ⟨defined.span.start, .entity (.macroGroup group)⟩ ∧
        inRegion? settings.macroLead (Comment.strip raw) part.region = some group ∧
        group.span?.map (·.start) = some defined.span.start := by
    intro other hHead
    obtain ⟨hMem, hAt⟩ := List.mem_filter.mp (List.mem_of_head? hHead)
    obtain ⟨hEntity, hOffset⟩ := Placed.isEntityAt_iff.mp hAt
    have hSeen := Setup.mem_seen_of_mem_itemsOf hMem hEntity
    obtain ⟨group, rfl, _⟩ := exists_group_of_mem_seen hScans hPart hDefined hSeen hOffset
    exact ⟨group, rfl, (mem_seen_group_iff hScans.finders_eq).mp hSeen⟩
  constructor
  · exact hOnly placed
  · rintro ⟨group, rfl, hGroup, hStart⟩
    have hSeen : ⟨defined.span.start, .entity (.macroGroup group)⟩ ∈
        (settings.setup finders raw).seen part.region :=
      (mem_seen_group_iff hScans.finders_eq).mpr ⟨hGroup, hStart⟩
    have hHere : ⟨defined.span.start, .entity (.macroGroup group)⟩ ∈
        ((settings.setup finders raw).itemsOf part).filter
          (Placed.isEntityAt defined.span.start) :=
      List.mem_filter.mpr
        ⟨mem_itemsOf_of_mem_seen hSeen, Placed.isEntityAt_iff.mpr ⟨rfl, rfl⟩⟩
    cases hHead : (((settings.setup finders raw).itemsOf part).filter
        (Placed.isEntityAt defined.span.start)).head? with
    | none =>
        rw [List.head?_eq_none_iff] at hHead
        rw [hHead] at hHere
        cases hHere
    | some other =>
        obtain ⟨own, rfl, hOwn, _⟩ := hOnly other hHead
        rw [hGroup] at hOwn
        cases hOwn
        rfl

/--
A group is kept exactly if a part has it and no part looked at before has one
at the same offset.
-/
theorem mem_handsOut_iff (hScans : settings.Scans raw finders forest) {offset : Nat}
    {group : MacroGroup} :
    ⟨offset, .entity (.macroGroup group)⟩ ∈ settings.handsOut raw finders forest ↔
      ∃ earlier part later, forest.parts (Comment.strip raw) 0 none = earlier ++ part :: later ∧
        inRegion? settings.macroLead (Comment.strip raw) part.region = some group ∧
        group.span?.map (·.start) = some offset ∧
        ∀ other ∈ earlier, ∀ own,
          inRegion? settings.macroLead (Comment.strip raw) other.region = some own →
          own.span?.map (·.start) ≠ some offset := by
  -- At the offset of a group no part has an entity but its own group.
  have hOffset : ∀ part ∈ forest.parts (Comment.strip raw) 0 none,
      inRegion? settings.macroLead (Comment.strip raw) part.region = some group →
      group.span?.map (·.start) = some offset →
      ∃ first, DefinedAt settings.macroLead (Comment.strip raw) first ∧
        first.span.start = offset := by
    intro part hPart hGroup hStart
    obtain ⟨first, _, hSpan, hDefined, _⟩ := exists_first_of_part hScans hPart hGroup
    rw [hSpan] at hStart
    exact ⟨first, hDefined, by simpa using hStart⟩
  have hMem : ∀ earlier part later,
      forest.parts (Comment.strip raw) 0 none = earlier ++ part :: later →
      part ∈ forest.parts (Comment.strip raw) 0 none ∧
        ∀ other ∈ earlier, other ∈ forest.parts (Comment.strip raw) 0 none := by
    intro earlier part later hParts
    rw [hParts]
    exact ⟨by simp, fun other hOther => List.mem_append_left _ hOther⟩
  rw [Settings.handsOut, Placed.mem_ordered_iff rfl, List.filter_flatMap, List.head?_flatMap,
    List.findSome?_eq_some_iff]
  constructor
  · rintro ⟨earlier, part, later, hParts, hHead, hNone⟩
    obtain ⟨hPart, hEarlier⟩ := hMem earlier part later hParts
    have hSeen : ⟨offset, .entity (.macroGroup group)⟩ ∈
        (settings.setup finders raw).seen part.region :=
      Setup.mem_seen_of_mem_itemsOf (List.mem_filter.mp (List.mem_of_head? hHead)).1 rfl
    obtain ⟨hGroup, hStart⟩ := (mem_seen_group_iff hScans.finders_eq).mp hSeen
    obtain ⟨first, hDefined, rfl⟩ := hOffset part hPart hGroup hStart
    refine ⟨earlier, part, later, hParts, hGroup, hStart, ?_⟩
    intro other hOther own hOwn hSame
    have hFound := (head_filter_itemsOf_iff hScans (hEarlier other hOther) hDefined).mpr
      ⟨own, rfl, hOwn, hSame⟩
    rw [hNone other hOther] at hFound
    cases hFound
  · rintro ⟨earlier, part, later, hParts, hGroup, hStart, hNone⟩
    obtain ⟨hPart, hEarlier⟩ := hMem earlier part later hParts
    obtain ⟨first, hDefined, rfl⟩ := hOffset part hPart hGroup hStart
    refine ⟨earlier, part, later, hParts,
      (head_filter_itemsOf_iff hScans hPart hDefined).mpr
        ⟨group, rfl, hGroup, hStart⟩, ?_⟩
    intro other hOther
    cases hHead : (((settings.setup finders raw).itemsOf other).filter
        (Placed.isEntityAt first.span.start)).head? with
    | none => rfl
    | some placed =>
        obtain ⟨own, rfl, hOwn, hSame⟩ :=
          (head_filter_itemsOf_iff hScans (hEarlier other hOther) hDefined).mp hHead
        exact absurd hSame (hNone other hOther own hOwn)

/-! ## Lost definitions -/

/-- A group stands inside its part. -/
theorem start_of_group (hScans : settings.Scans raw finders forest) {part : Part}
    (hPart : part ∈ forest.parts (Comment.strip raw) 0 none) {group : MacroGroup}
    (hGroup : inRegion? settings.macroLead (Comment.strip raw) part.region = some group) :
    ∃ offset, group.span?.map (·.start) = some offset ∧ part.region.start ≤ offset ∧
      offset < part.region.stop := by
  obtain ⟨first, _, hSpan, hDefined, hStart, hStop⟩ := exists_first_of_part hScans hPart hGroup
  have hOwn := hDefined.start_lt_stop
  exact ⟨first.span.start, by rw [hSpan]; rfl, hStart, by omega⟩

/--
The group of a part is kept exactly if no part inside it has a group that begins
with the same definition.
-/
theorem mem_handsOut_iff_of_part (hScans : settings.Scans raw finders forest) {offset : Nat}
    {group : MacroGroup} :
    ⟨offset, .entity (.macroGroup group)⟩ ∈ settings.handsOut raw finders forest ↔
      ∃ part ∈ forest.parts (Comment.strip raw) 0 none,
        inRegion? settings.macroLead (Comment.strip raw) part.region = some group ∧
        group.span?.map (·.start) = some offset ∧
        ∀ inner ∈ forest.parts (Comment.strip raw) 0 none, inner.region.Inside part.region →
          ∀ own, inRegion? settings.macroLead (Comment.strip raw) inner.region = some own →
            own.span?.map (·.start) ≠ group.span?.map (·.start) := by
  rw [mem_handsOut_iff hScans]
  constructor
  · rintro ⟨earlier, part, later, hParts, hGroup, hStart, hNone⟩
    have hPart : part ∈ forest.parts (Comment.strip raw) 0 none := by
      rw [hParts]
      simp
    refine ⟨part, hPart, hGroup, hStart, ?_⟩
    intro inner hInner hInside own hOwn hSame
    obtain ⟨at', hAt', _, hStop⟩ := start_of_group hScans hPart hGroup
    obtain ⟨offset', hOffset', hFrom, _⟩ := start_of_group hScans hInner hOwn
    rw [hOffset', hAt', Option.some.injEq] at hSame
    have hStrict := hInside.1
    rw [hParts] at hInner
    rcases List.mem_append.mp hInner with hEarlier | hLater
    · exact hNone inner hEarlier own hOwn (by rw [hOffset', hSame, ← hAt', hStart])
    · rcases List.mem_cons.mp hLater with rfl | hLater
      · omega
      · -- A part looked at later would have the part inside it.
        obtain ⟨ahead, behind, rfl⟩ := List.append_of_mem hLater
        have hParts' : forest.parts (Comment.strip raw) 0 none =
            (earlier ++ part :: ahead) ++ inner :: behind := by
          rw [hParts]
          simp
        have hAround := hScans.isOf.inside_of_earlier hParts' (by simp) (hSame ▸ hFrom) hStop
        have hOther := hAround.1
        omega
  · rintro ⟨part, hPart, hGroup, hStart, hAlone⟩
    obtain ⟨earlier, later, hParts⟩ := List.append_of_mem hPart
    refine ⟨earlier, part, later, hParts, hGroup, hStart, ?_⟩
    intro other hOther own hOwn hSame
    have hEarlier : other ∈ forest.parts (Comment.strip raw) 0 none := by
      rw [hParts]
      simp [hOther]
    obtain ⟨at', hAt', hFrom, _⟩ := start_of_group hScans hPart hGroup
    obtain ⟨offset', hOffset', _, hStop⟩ := start_of_group hScans hEarlier hOwn
    have hSameOffset : offset' = at' := by
      rw [hOffset'] at hSame
      rw [hAt', ← hSame] at hStart
      simpa using hStart.symm
    have hInside := hScans.isOf.inside_of_earlier hParts hOther hFrom (hSameOffset ▸ hStop)
    exact hAlone other hEarlier hInside own hOwn (hSame.trans hStart.symm)

/--
A macro definition occurs in a group of a header exactly if it is found in some
part whose group begins with a definition that no part inside it begins with.
-/
theorem mem_definitions_iff_of_ofText {header : ScannedHeader}
    (h : ofText raw settings = .ok header) :
    header.source = Comment.strip raw ∧
      ∃ forest, Forest.IsOf (directiveLines header.source) forest ∧
        ∀ defined : MacroDefinition,
          (∃ offset group, ⟨offset, .entity (.macroGroup group)⟩ ∈ header.items ∧
              defined ∈ group.definitions) ↔
            ∃ part ∈ forest.parts header.source 0 none, ∃ group,
              inRegion? settings.macroLead header.source part.region = some group ∧
              defined ∈ group.definitions ∧
              ∀ inner ∈ forest.parts header.source 0 none, inner.region.Inside part.region →
                ∀ other, inRegion? settings.macroLead header.source inner.region = some other →
                  other.span?.map (·.start) ≠ group.span?.map (·.start) := by
  obtain ⟨finders, forest, hScans, rfl⟩ := exists_scans_of_ofText h
  refine ⟨rfl, forest, hScans.isOf, fun defined => ?_⟩
  constructor
  · rintro ⟨offset, group, hItem, hMem⟩
    obtain ⟨part, hPart, hGroup, _, hAlone⟩ := (mem_handsOut_iff_of_part hScans).mp hItem
    exact ⟨part, hPart, group, hGroup, hMem, hAlone⟩
  · rintro ⟨part, hPart, group, hGroup, hMem, hAlone⟩
    obtain ⟨offset, hStart, _⟩ := start_of_group hScans hPart hGroup
    exact ⟨offset, group, (mem_handsOut_iff_of_part hScans).mpr
      ⟨part, hPart, hGroup, hStart, hAlone⟩, hMem⟩

/--
A header in which the group of the outer block begins with the definition in the
inner block.
-/
def overshadowed : Text :=
  ("#ifdef A\n#ifdef B\n#define MBEDTLS_TLS1_3_SIG_X 0x1\n#endif\n" ++
    "#define MBEDTLS_TLS1_3_SIG_Y 0x2\n#endif\n").toList

/-- The definition in the inner block. -/
def innerDefinition : MacroDefinition :=
  ⟨"MBEDTLS_TLS1_3_SIG_X".toList, "0x1".toList, ⟨18, 50⟩⟩

/-- The definition behind the inner block. -/
def outerDefinition : MacroDefinition :=
  ⟨"MBEDTLS_TLS1_3_SIG_Y".toList, "0x2".toList, ⟨58, 90⟩⟩

/-- What is found in that header, part by part: the outer group has both definitions. -/
def overshadowedFound : List Placed :=
  [⟨9, .guard ⟨"#ifdef B".toList, false⟩⟩,
    ⟨18, .entity (.macroGroup ⟨"MBEDTLS_TLS1_3_SIG_".toList, [innerDefinition]⟩)⟩,
    ⟨51, .guard ⟨"#endif /* defined(B) */".toList, true⟩⟩,
    ⟨0, .guard ⟨"#ifdef A".toList, false⟩⟩,
    ⟨18, .entity (.macroGroup
      ⟨"MBEDTLS_TLS1_3_SIG_".toList, [innerDefinition, outerDefinition]⟩)⟩,
    ⟨91, .guard ⟨"#endif /* defined(A) */".toList, true⟩⟩]

theorem ofText_overshadowed :
    ofText overshadowed {} =
      .ok ⟨Comment.strip overshadowed, Placed.ordered overshadowedFound⟩ := by
  obtain ⟨finders, hFinders⟩ : ∃ finders, ({} : Settings).finders = .ok finders :=
    exists_finders (by decide)
  refine ofText_of_found hFinders ?_ ?_
  · cases hFinders
    decide +kernel
  · cases hFinders
    decide +kernel

/-- In that header the inner definition is kept: no part stands inside its branch. -/
theorem mem_definitions_overshadowed :
    ∃ header, ofText overshadowed {} = .ok header ∧
      ∃ offset group, ⟨offset, .entity (.macroGroup group)⟩ ∈ header.items ∧
        innerDefinition ∈ group.definitions := by
  refine ⟨_, ofText_overshadowed, ?_⟩
  obtain ⟨_, forest, hForest, hKept⟩ := mem_definitions_iff_of_ofText ofText_overshadowed
  have hPart : Part.branch ⟨⟨⟨.defined, "B".toList⟩, ⟨9, 17⟩⟩, 51⟩ false ∈
      forest.parts (Comment.strip overshadowed) 0 none := by
    rw [← Outline.parts_eq_of_isOf hForest]
    decide +kernel
  have hGroup : inRegion? ({} : Settings).macroLead (Comment.strip overshadowed) ⟨17, 51⟩ =
      some ⟨"MBEDTLS_TLS1_3_SIG_".toList, [innerDefinition]⟩ := by decide +kernel
  have hAlone : ∀ inner ∈ forest.parts (Comment.strip overshadowed) 0 none,
      ¬ inner.region.Inside ⟨17, 51⟩ := by
    rw [← Outline.parts_eq_of_isOf hForest]
    decide +kernel
  refine (hKept innerDefinition).mpr ⟨_, hPart, _, hGroup, by decide, ?_⟩
  intro inner hInner hInside
  exact absurd hInside (hAlone inner hInner)

/-- In that header the definition behind the inner block is found, but in no group of the items. -/
theorem overshadowed_loses_definition :
    ∃ header forest part group, ofText overshadowed {} = .ok header ∧
      Forest.IsOf (directiveLines header.source) forest ∧
      part ∈ forest.parts header.source 0 none ∧
      inRegion? ({} : Settings).macroLead header.source part.region = some group ∧
      outerDefinition ∈ group.definitions ∧
      ∀ offset group, ⟨offset, .entity (.macroGroup group)⟩ ∈ header.items →
        outerDefinition ∉ group.definitions := by
  obtain ⟨forest, hForest⟩ : ∃ forest,
      Forest.IsOf (directiveLines (Comment.strip overshadowed)) forest :=
    Forest.exists_isOf_iff.mpr (by decide +kernel)
  have hPart : Part.branch ⟨⟨⟨.defined, "A".toList⟩, ⟨0, 8⟩⟩, 91⟩ true ∈
      forest.parts (Comment.strip overshadowed) 0 none := by
    rw [← Outline.parts_eq_of_isOf hForest]
    decide +kernel
  have hGroup : inRegion? ({} : Settings).macroLead (Comment.strip overshadowed) ⟨8, 91⟩ =
      some ⟨"MBEDTLS_TLS1_3_SIG_".toList, [innerDefinition, outerDefinition]⟩ := by decide +kernel
  refine ⟨_, forest, _, _, ofText_overshadowed, hForest, hPart, hGroup, by decide, ?_⟩
  intro offset group hItem
  have hOnly : ∀ placed ∈ overshadowedFound, placed.item.isEntity = true → placed.offset = 18 := by
    decide
  obtain rfl : offset = 18 := hOnly _ (Placed.mem_of_mem_ordered hItem) rfl
  have hFirst : (overshadowedFound.filter (Placed.isEntityAt 18)).head? =
      some ⟨18, .entity (.macroGroup ⟨"MBEDTLS_TLS1_3_SIG_".toList, [innerDefinition]⟩)⟩ := by
    decide
  have hKept : (overshadowedFound.filter (Placed.isEntityAt 18)).head? =
      some ⟨18, .entity (.macroGroup group)⟩ := (Placed.mem_ordered_iff rfl).mp hItem
  rw [hFirst] at hKept
  cases hKept
  decide

end ScannedHeader

end ValueNames
