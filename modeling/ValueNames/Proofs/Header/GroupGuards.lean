import ValueNames.Output.File
import ValueNames.Proofs.Header.Groups

/-!
# Which guards stand around a macro group

A group stands between the guard lines of the scopes around the part that it is
kept for, and its function is compiled with them. It also has the definitions
that stand further inside, under conditions of their own, which are left out.
Every group becomes a function of the same name. Groups of parts that can be
compiled together define it more than once, and only the two sides of a block
are kept apart.

## Main results

* `exists_origin` — a group is kept for a part, and no branch inside that part
  holds its first definition.
* `around_group_of_ofText` — the guards around a group are those of its part, and a
  definition is compiled where in addition the guards further inside hold.
* `active_groups_of_generate` — groups that are compiled together come from
  different parts, and never from the two sides of a block.
-/

namespace ValueNames

open Scan Conditional MacroGroup

namespace ScannedHeader

variable {raw : Text} {settings : Settings} {finders : List Finder} {forest : Forest}

/-! ## Scopes around a definition -/

/-- No scope begins or ends where a macro is defined. -/
theorem apart_of_definedAt {lead source : Text}
    (hForest : Forest.IsOf (directiveLines source) forest) {defined : MacroDefinition}
    (hDefined : DefinedAt lead source defined) (entity : Entity) :
    forest.Apart ⟨defined.span.start, .entity entity⟩ where
  isEntity := rfl
  apart := by
    intro scope hScope
    obtain ⟨⟨opening, hOpening, hOpened⟩, closing, hClosing, hClosed⟩ :=
      hForest.lines_of_mem_scopes (by simp) (List.Subset.refl _) hScope
    constructor
    · rw [← hOpened]
      exact hDefined.start_ne_of_mem_directiveLines hOpening
    · rw [← hClosed]
      exact hDefined.start_ne_of_mem_directiveLines hClosing

/-- A scope that holds a definition has a group, which begins there or before. -/
theorem exists_group_of_covers (hScans : settings.Scans raw finders forest)
    {defined : MacroDefinition}
    (hDefined : DefinedAt settings.macroLead (Comment.strip raw) defined) {scope : Scope}
    (hScope : scope ∈ forest.scopes) (hCovers : scope.covers defined.span = true) :
    ∃ level group first,
      Part.branch scope level ∈ forest.parts (Comment.strip raw) 0 none ∧
      inRegion? settings.macroLead (Comment.strip raw) scope.region = some group ∧
      group.definitions.head? = some first ∧ first.span.start ≤ defined.span.start := by
  obtain ⟨hStart, hStop⟩ := Scope.covers_iff.mp hCovers
  obtain ⟨level, hPart⟩ := Forest.exists_mem_parts hScope (Comment.strip raw) 0 none
  obtain ⟨text, hText⟩ := (fits_of_mem_parts hScans.isOf hPart).exists_text
  obtain ⟨group, first, hGroup, hFirst, hBefore⟩ :=
    hDefined.exists_inRegion? (regionText_eq_ok_iff.mp hText) hStart hStop
  exact ⟨level, group, first, hPart, hGroup, hFirst, hBefore⟩

/-- With guards at all levels, a scope that holds a definition has guard lines. -/
theorem guards_of_covers (hGuarded : settings.unguardedOutermost = false)
    (hScans : settings.Scans raw finders forest) {defined : MacroDefinition}
    (hDefined : DefinedAt settings.macroLead (Comment.strip raw) defined) {scope : Scope}
    (hScope : scope ∈ forest.scopes) (hCovers : scope.covers defined.span = true)
    (outermost : Bool) : (settings.setup finders raw).guards scope outermost = true := by
  obtain ⟨level, group, _, hPart, hGroup, _⟩ :=
    exists_group_of_covers hScans hDefined hScope hCovers
  obtain ⟨offset, hOffset, _⟩ := start_of_group hScans hPart hGroup
  have hSeen : ⟨offset, .entity (.macroGroup group)⟩ ∈
      (settings.setup finders raw).seen scope.region :=
    (mem_seen_group_iff hScans.finders_eq).mpr ⟨hGroup, hOffset⟩
  have hAll : (settings.setup finders raw).unguardedOutermost = false := hGuarded
  rw [Setup.guards, hAll, decide_eq_true (List.ne_nil_of_mem hSeen)]
  rfl

/-! ## The part of a group -/

/--
The part that a group among the items is kept for, and the first definition of
the group. No branch inside the part holds that definition.
-/
structure Origin (settings : Settings) (source : Text) (forest : Forest) (group : MacroGroup)
    (part : Part) (first : MacroDefinition) : Prop where
  mem_parts : part ∈ forest.parts source 0 none
  inRegion : inRegion? settings.macroLead source part.region = some group
  head : group.definitions.head? = some first
  definedAt : DefinedAt settings.macroLead source first
  start_le : part.region.start ≤ first.span.start
  le_stop : first.span.stop ≤ part.region.stop
  innermost : ∀ scope ∈ forest.scopes, scope.region.Inside part.region →
    ¬ scope.covers first.span = true

/-- A group among the items of a header comes from a part. -/
theorem exists_origin (hScans : settings.Scans raw finders forest) {before after : List Placed}
    {offset : Nat} {group : MacroGroup}
    (hSplit : settings.handsOut raw finders forest =
      before ++ ⟨offset, .entity (.macroGroup group)⟩ :: after) :
    ∃ part first, Origin settings (Comment.strip raw) forest group part first ∧
      offset = first.span.start := by
  have hItem : ⟨offset, .entity (.macroGroup group)⟩ ∈ settings.handsOut raw finders forest := by
    rw [hSplit]
    exact List.mem_append_right _ List.mem_cons_self
  obtain ⟨part, hPart, hGroup, hOffset, hAlone⟩ := (mem_handsOut_iff_of_part hScans).mp hItem
  obtain ⟨first, hHead, hSpan, hDefined, hStart, hStop⟩ :=
    exists_first_of_part hScans hPart hGroup
  refine ⟨part, first, ⟨hPart, hGroup, hHead, hDefined, hStart, hStop, ?_⟩, ?_⟩
  · intro scope hScope hInside hCovers
    obtain ⟨level, own, ownFirst, hBranch, hOwn, hOwnHead, hBefore⟩ :=
      exists_group_of_covers hScans hDefined hScope hCovers
    obtain ⟨other, hOtherHead, hOtherSpan, hOtherDefined, hFrom, hTo⟩ :=
      exists_first_of_part hScans hBranch hOwn
    obtain rfl : ownFirst = other := by
      rw [hOwnHead] at hOtherHead
      exact Option.some.inj hOtherHead
    -- The group of the part takes in the definitions inside, and so begins there or before.
    obtain ⟨text, hText⟩ := (fits_of_mem_parts hScans.isOf hPart).exists_text
    obtain ⟨again, head, hAgain, hAgainHead, hAhead⟩ :=
      hOtherDefined.exists_inRegion? (regionText_eq_ok_iff.mp hText)
        (Nat.le_trans (Nat.le_of_lt hInside.1) hFrom) (Nat.le_trans hTo hInside.2)
    rw [hGroup] at hAgain
    cases hAgain
    rw [hHead] at hAgainHead
    cases hAgainHead
    refine hAlone _ hBranch hInside own hOwn ?_
    rw [hOtherSpan, hSpan]
    exact congrArg some (Nat.le_antisymm hBefore hAhead)
  · rw [hSpan] at hOffset
    exact (Option.some.inj hOffset).symm

namespace Origin

variable {group : MacroGroup} {part : Part} {first : MacroDefinition}

/-- The scopes around the first definition of a group are those around its part. -/
theorem covering_first {source : Text} (h : Origin settings source forest group part first)
    (hForest : Forest.IsOf (directiveLines source) forest) :
    forest.covering first.span = forest.covering part.region := by
  obtain ⟨inner, hCovering, hInner⟩ :=
    hForest.covering_eq_append h.mem_parts h.definedAt.start_lt_stop h.start_le h.le_stop
  have hNone : inner = [] := by
    apply List.eq_nil_iff_forall_not_mem.mpr
    intro scope hScope
    have hMem : scope ∈ forest.covering first.span := by
      rw [hCovering]
      exact List.mem_append_right _ hScope
    obtain ⟨hScopes, hCovers⟩ := List.mem_filter.mp hMem
    exact h.innermost scope hScopes (hInner scope hScope) hCovers
  rw [hCovering, hNone, List.append_nil]

/-- The definitions of a group stand in its part. -/
theorem definedAt_of_mem {source : Text} (h : Origin settings source forest group part first)
    (hForest : Forest.IsOf (directiveLines source) forest) {defined : MacroDefinition}
    (hMem : defined ∈ group.definitions) :
    DefinedAt settings.macroLead source defined ∧ part.region.start ≤ defined.span.start ∧
      defined.span.stop ≤ part.region.stop :=
  MacroGroup.definedAt_of_mem (hForest.isLineStart_stop h.mem_parts) h.inRegion hMem

end Origin

/-- The function of a group is written where the group stands. -/
theorem functions_of_split (settings : Settings) {found before after : List Placed} {offset : Nat}
    {group : MacroGroup} (hSplit : Placed.ordered found =
      before ++ ⟨offset, .entity (.macroGroup group)⟩ :: after) :
    Placed.functions settings (Placed.ordered found) =
      Text.join ['\n'] (before.map (·.item.output settings) ++
        group.function settings.macroFunction settings.macroSentinel ::
          after.map (·.item.output settings)) := by
  rw [Placed.functions, Placed.ordered_ordered, hSplit, List.map_append, List.map_cons]
  rfl

/-! ## Guards around a group -/

/-- Where no scope straddles a definition, the scopes around its start are those that hold it. -/
theorem enclosing_eq_covering_of_definedAt {lead source : Text}
    (hForest : Forest.IsOf (directiveLines source) forest) {defined : MacroDefinition}
    (hDefined : DefinedAt lead source defined)
    (hClear : ∀ scope ∈ forest.scopes, scope.Clear defined.span) :
    forest.enclosing defined.span.start = forest.covering defined.span := by
  obtain ⟨high, hWithin⟩ := hForest.within
  refine hWithin.enclosing_eq_covering hDefined.start_lt_stop hClear ?_
  intro scope hScope
  exact ((apart_of_definedAt hForest hDefined (.macroGroup ⟨[], []⟩)).apart scope hScope).2

/--
The pairs of guard lines around a macro group of a header, outermost first, are
those of the scopes that hold the part it is kept for, if guards are written at
all levels and no scope straddles a definition. The scopes that hold a
definition of the group are these and then others inside the part. So the source
compiles a definition exactly when the function of the group is compiled and the
guards of those inner scopes hold, which do not stand around the function.
-/
theorem around_group_of_ofText (hGuarded : settings.unguardedOutermost = false)
    {header : ScannedHeader} (h : ofText raw settings = .ok header) :
    header.source = Comment.strip raw ∧
      ∃ forest, Forest.IsOf (directiveLines header.source) forest ∧
        ∀ before offset group after,
          header.items = before ++ ⟨offset, .entity (.macroGroup group)⟩ :: after →
          (∀ defined ∈ group.definitions, ∀ scope ∈ forest.scopes, scope.Clear defined.span) →
          ∃ part ∈ forest.parts header.source 0 none,
            inRegion? settings.macroLead header.source part.region = some group ∧
            Item.Around (before.map (·.item))
              ((forest.covering part.region).map (·.block.guard)) (after.map (·.item)) ∧
            Placed.functions settings header.items =
              Text.join ['\n'] (before.map (·.item.output settings) ++
                group.function settings.macroFunction settings.macroSentinel ::
                  after.map (·.item.output settings)) ∧
            ∀ defined ∈ group.definitions, ∃ inner,
              forest.covering defined.span = forest.covering part.region ++ inner ∧
              (∀ scope ∈ inner, scope.region.Inside part.region) ∧
              ∀ holds, Guard.Lawful holds →
                compiled holds (directiveLines header.source) defined.span.start =
                  (Item.compiled holds (before.map (·.item)) &&
                    inner.all (holds ·.block.guard)) := by
  obtain ⟨finders, forest, hScans, rfl⟩ := exists_scans_of_ofText h
  refine ⟨rfl, forest, hScans.isOf, fun before offset group after hSplit hClear => ?_⟩
  obtain ⟨high, hWithin⟩ := hScans.isOf.within
  have hInside : (settings.setup finders raw).FindsInside :=
    findsInside_finders hScans.finders_eq _ _
  obtain ⟨part, first, hOrigin, rfl⟩ := exists_origin hScans hSplit
  have hFirst : first ∈ group.definitions := List.mem_of_head? hOrigin.head
  have hAround : forest.enclosing first.span.start = forest.covering first.span :=
    enclosing_eq_covering_of_definedAt hScans.isOf hOrigin.definedAt (hClear first hFirst)
  have hMeets : forest.Meets (settings.setup finders raw).guards
      ⟨first.span.start, .entity (.macroGroup group)⟩ := by
    refine ⟨apart_of_definedAt hScans.isOf hOrigin.definedAt _, ?_⟩
    intro scope hScope hEncloses outermost
    have hMem : scope ∈ forest.covering first.span := by
      rw [← hAround]
      exact List.mem_filter.mpr ⟨hScope, hEncloses⟩
    exact guards_of_covers hGuarded hScans hOrigin.definedAt hScope
      (List.mem_filter.mp hMem).2 outermost
  have hPairs := around_ordered_parts hInside hWithin hMeets hSplit
  rw [hAround, hOrigin.covering_first hScans.isOf] at hPairs
  refine ⟨part, hOrigin.mem_parts, hOrigin.inRegion, hPairs,
    functions_of_split settings hSplit, ?_⟩
  intro defined hMem
  obtain ⟨hDefined, hStart, hStop⟩ := hOrigin.definedAt_of_mem hScans.isOf hMem
  obtain ⟨inner, hCovering, hInner⟩ :=
    hScans.isOf.covering_eq_append hOrigin.mem_parts hDefined.start_lt_stop hStart hStop
  refine ⟨inner, hCovering, hInner, fun holds hLawful => ?_⟩
  have hCompiled := compiled_eq_all_enclosing hScans.isOf hLawful defined.span.start
  rw [enclosing_eq_covering_of_definedAt hScans.isOf hDefined (hClear defined hMem),
    hCovering, List.map_append, List.all_append, ← hPairs.compiled_eq holds,
    List.all_map] at hCompiled
  exact hCompiled

/-- A header in which the group of the outer block takes in a definition of the inner block. -/
def sheltering : Text :=
  ("#ifdef A\n#define MBEDTLS_TLS1_3_SIG_X 0x1\n#ifdef B\n#define MBEDTLS_TLS1_3_SIG_Y 0x2\n" ++
    "#endif\n#endif\n").toList

/-- The definition in the outer block only. -/
def shelteringDefinition : MacroDefinition :=
  ⟨"MBEDTLS_TLS1_3_SIG_X".toList, "0x1".toList, ⟨9, 41⟩⟩

/-- The definition in the inner block. -/
def shelteredDefinition : MacroDefinition :=
  ⟨"MBEDTLS_TLS1_3_SIG_Y".toList, "0x2".toList, ⟨51, 83⟩⟩

/-- The group of the outer block. -/
def shelteringGroup : MacroGroup :=
  ⟨"MBEDTLS_TLS1_3_SIG_".toList, [shelteringDefinition, shelteredDefinition]⟩

/-- The forest of that header. -/
def shelteringForest : Forest :=
  .branch ⟨⟨.defined, "A".toList⟩, ⟨0, 8⟩⟩
    (.branch ⟨⟨.defined, "B".toList⟩, ⟨42, 50⟩⟩ .nil .final ⟨84, 90⟩ .nil) .final ⟨91, 97⟩ .nil

/-- What stands behind the group of the outer block. -/
def behindSheltering : List Placed :=
  [⟨42, .guard ⟨"#ifdef B".toList, false⟩⟩,
    ⟨51, .entity (.macroGroup ⟨"MBEDTLS_TLS1_3_SIG_".toList, [shelteredDefinition]⟩)⟩,
    ⟨84, .guard ⟨"#endif /* defined(B) */".toList, true⟩⟩,
    ⟨91, .guard ⟨"#endif /* defined(A) */".toList, true⟩⟩]

/-- The items of that header. -/
def shelteringItems : List Placed :=
  ⟨0, .guard ⟨"#ifdef A".toList, false⟩⟩ :: ⟨9, .entity (.macroGroup shelteringGroup)⟩ ::
    behindSheltering

theorem ofText_sheltering :
    ofText sheltering {} = .ok ⟨Comment.strip sheltering, shelteringItems⟩ := by
  obtain ⟨finders, hFinders⟩ : ∃ finders, ({} : Settings).finders = .ok finders :=
    exists_finders (by decide)
  have hFound : (State.initial.outline.parts (Comment.strip sheltering)
      (directiveLines (Comment.strip sheltering))).flatMap
        (({} : Settings).setup finders sheltering).itemsOf =
      behindSheltering.take 3 ++ shelteringItems.take 2 ++ behindSheltering.drop 3 := by
    cases hFinders
    decide +kernel
  have hOrdered : Placed.ordered
      (behindSheltering.take 3 ++ shelteringItems.take 2 ++ behindSheltering.drop 3) =
        shelteringItems := by
    have hAscending : Placed.Ascending shelteringItems := by
      unfold Placed.Ascending
      decide
    rw [Placed.ordered, Placed.sorted_eq_of_forall_mem hAscending (by decide)]
    decide
  rw [← hOrdered]
  refine ofText_of_found hFinders ?_ hFound
  cases hFinders
  decide +kernel

theorem isOf_sheltering :
    Forest.IsOf (directiveLines (Comment.strip sheltering)) shelteringForest := by
  have hLines : directiveLines (Comment.strip sheltering) =
      [⟨.opens .defined, "A".toList, ⟨0, 8⟩⟩, ⟨.opens .defined, "B".toList, ⟨42, 50⟩⟩,
        ⟨.closes .final, [], ⟨84, 90⟩⟩, ⟨.closes .final, [], ⟨91, 97⟩⟩] := by decide +kernel
  rw [hLines]
  have hInner : Forest.Reads none
      [⟨.opens .defined, "B".toList, ⟨42, 50⟩⟩, ⟨.closes .final, [], ⟨84, 90⟩⟩,
        ⟨.closes .final, [], ⟨91, 97⟩⟩]
      (.branch ⟨⟨.defined, "B".toList⟩, ⟨42, 50⟩⟩ .nil .final ⟨84, 90⟩ .nil)
      [⟨.closes .final, [], ⟨91, 97⟩⟩] :=
    .opens rfl (.closes (.stop (by simp)) rfl (.stop (by simp)))
  exact .opens rfl (.closes hInner rfl (.stop (by simp)))

/-- In that header the guards of the outer block stand around its group. -/
theorem around_group_sheltering :
    ({} : Settings).unguardedOutermost = false ∧
      ∃ header forest before after part, ofText sheltering {} = .ok header ∧
        Forest.IsOf (directiveLines header.source) forest ∧
        header.items = before ++ ⟨9, .entity (.macroGroup shelteringGroup)⟩ :: after ∧
        (∀ defined ∈ shelteringGroup.definitions, ∀ scope ∈ forest.scopes,
          scope.Clear defined.span) ∧
        Item.Around (before.map (·.item)) ((forest.covering part).map (·.block.guard))
          (after.map (·.item)) ∧
        ∃ inner, forest.covering shelteredDefinition.span = forest.covering part ++ inner ∧
          ∀ holds, Guard.Lawful holds →
            compiled holds (directiveLines header.source) 51 =
              (Item.compiled holds (before.map (·.item)) && inner.all (holds ·.block.guard)) := by
  have hGuarded : ({} : Settings).unguardedOutermost = false := rfl
  obtain ⟨_, forest, hForest, hGroups⟩ := around_group_of_ofText hGuarded ofText_sheltering
  have hLines : ∀ defined ∈ shelteringGroup.definitions,
      ∀ line ∈ directiveLines (Comment.strip sheltering),
        line.span.stop ≤ defined.span.start ∨ defined.span.stop ≤ line.span.start := by
    decide +kernel
  have hClear : ∀ defined ∈ shelteringGroup.definitions, ∀ scope ∈ forest.scopes,
      scope.Clear defined.span := fun defined hMem => hForest.clear (hLines defined hMem)
  have hSplit : shelteringItems = [⟨0, .guard ⟨"#ifdef A".toList, false⟩⟩] ++
      ⟨9, .entity (.macroGroup shelteringGroup)⟩ :: behindSheltering := rfl
  obtain ⟨part, _, _, hAround, _, hDefined⟩ := hGroups _ _ _ _ hSplit hClear
  obtain ⟨inner, hCovering, _, hHolds⟩ := hDefined shelteredDefinition (by decide)
  exact ⟨hGuarded, _, forest, _, _, part.region, ofText_sheltering, hForest, hSplit, hClear,
    hAround, inner, hCovering, hHolds⟩

/--
In that header the inner definition is in the group of the outer block, around
which the guard of the inner block does not stand. The function of the group is
compiled with it where the macro is not defined.
-/
theorem sheltering_drops_guard :
    ({} : Settings).unguardedOutermost = false ∧
      ∃ header before after guards scope holds, ofText sheltering {} = .ok header ∧
        Forest.IsOf (directiveLines header.source) shelteringForest ∧
        header.items = before ++ ⟨9, .entity (.macroGroup shelteringGroup)⟩ :: after ∧
        shelteredDefinition ∈ shelteringGroup.definitions ∧
        Item.Around (before.map (·.item)) guards (after.map (·.item)) ∧
        scope ∈ shelteringForest.covering shelteredDefinition.span ∧
        scope.block.guard ∉ guards ∧ Guard.Lawful holds ∧
        Item.compiled holds (before.map (·.item)) = true ∧
        compiled holds (directiveLines header.source) shelteredDefinition.span.start = false := by
  obtain ⟨holds, hLawful, hHolds⟩ := Guard.exists_lawful (· = "A".toList)
  have hInner : Item.WellNested
      [Item.opening ⟨.defined, "B".toList⟩,
        .entity (.macroGroup ⟨"MBEDTLS_TLS1_3_SIG_".toList, [shelteredDefinition]⟩),
        Item.closing ⟨.defined, "B".toList⟩] :=
    .pair (.entity .nil) ⟨_, List.mem_singleton_self _, rfl⟩ .nil
  have hAround : Item.Around [Item.guard ⟨"#ifdef A".toList, false⟩]
      [⟨.defined, "A".toList⟩] (behindSheltering.map (·.item)) :=
    @Item.Around.inside [] [] _ [] ⟨.defined, "A".toList⟩ [] .nil (.here .nil hInner) .nil
  have hEnclosing : (shelteringForest.enclosing 51).map (·.block.guard) =
      [⟨.defined, "A".toList⟩, ⟨.defined, "B".toList⟩] := by decide
  refine ⟨rfl, _, [⟨0, .guard ⟨"#ifdef A".toList, false⟩⟩], behindSheltering, _,
    ⟨⟨⟨.defined, "B".toList⟩, ⟨42, 50⟩⟩, 84⟩, holds, ofText_sheltering, isOf_sheltering, rfl,
    by decide, hAround, by decide, by decide, hLawful, ?_, ?_⟩
  · rw [List.map_singleton, hAround.compiled_eq]
    simp [hHolds]
  · show compiled holds (directiveLines (Comment.strip sheltering)) 51 = false
    rw [compiled_eq_all_enclosing isOf_sheltering hLawful, hEnclosing]
    simp [hHolds]

/-! ## Groups that are compiled together -/

/-- A group behind some items of a header whose guards all hold. -/
def Active (header : ScannedHeader) (holds : Guard → Bool) (before : List Placed)
    (group : MacroGroup) : Prop :=
  ∃ offset guards after,
    header.items = before ++ ⟨offset, .entity (.macroGroup group)⟩ :: after ∧
    Item.Around (before.map (·.item)) guards (after.map (·.item)) ∧ guards.all holds = true

/-- Where all guards around a group hold, so do all conditions around a part that has it. -/
theorem holds_of_active (hGuarded : settings.unguardedOutermost = false)
    (hScans : settings.Scans raw finders forest) {before after : List Placed} {offset : Nat}
    {group : MacroGroup}
    (hSplit : settings.handsOut raw finders forest =
      before ++ ⟨offset, .entity (.macroGroup group)⟩ :: after)
    {guards : List Guard}
    (hAround : Item.Around (before.map (·.item)) guards (after.map (·.item)))
    {holds : Guard → Bool} (hHolds : guards.all holds = true) {part : Part}
    (hPart : part ∈ forest.parts (Comment.strip raw) 0 none)
    (hGroup : inRegion? settings.macroLead (Comment.strip raw) part.region = some group) :
    ∀ scope ∈ forest.covering part.region, holds scope.block.guard = true := by
  intro scope hScope
  obtain ⟨hMem, hCovers⟩ := List.mem_filter.mp hScope
  obtain ⟨high, hWithin⟩ := hScans.isOf.within
  have hInside : (settings.setup finders raw).FindsInside :=
    findsInside_finders hScans.finders_eq _ _
  obtain ⟨_, first, hOrigin, rfl⟩ := exists_origin hScans hSplit
  obtain ⟨other, hHead, _, hDefined, hFrom, hTo⟩ := exists_first_of_part hScans hPart hGroup
  obtain rfl : first = other := by
    rw [hOrigin.head] at hHead
    exact Option.some.inj hHead
  obtain ⟨hStart, hStop⟩ := Scope.covers_iff.mp hCovers
  have hFirst : scope.covers first.span = true :=
    Scope.covers_iff.mpr ⟨Nat.le_trans hStart hFrom, Nat.le_trans hTo hStop⟩
  have hEncloses : scope ∈ forest.enclosing first.span.start := by
    have hPlace := hWithin.mem_scopes hMem
    have hLess := hDefined.start_lt_stop
    refine List.mem_filter.mpr ⟨hMem, Scope.encloses_iff.mpr ?_⟩
    simp only [Scope.region] at hPlace hStart hStop
    omega
  -- The scope has guard lines, and they stand around the group.
  have hGuarding := Forest.mem_guarding hEncloses
    (guards_of_covers hGuarded hScans hDefined hMem hFirst) true
  have hPairs := around_guarding_parts hInside hWithin
    (apart_of_definedAt hScans.isOf hDefined (.macroGroup group)) hSplit
  rw [← hAround.compiled_eq, hPairs.compiled_eq, List.all_eq_true] at hHolds
  exact hHolds _ (List.mem_map_of_mem hGuarding)

/--
Every macro group becomes a function of the same name at its place in the
generated file. Groups whose guards all hold come from different parts of the
header. All conditions around such a part hold, if guards are written at all
levels, and so no two of these groups come from the two sides of a block.
-/
theorem active_groups_of_generate (hGuarded : settings.unguardedOutermost = false) {output : Text}
    (h : generate raw settings = .ok output) :
    ∃ header forest, ofText raw settings = .ok header ∧
      output = outputFileOf settings header.items ∧
      Forest.IsOf (directiveLines header.source) forest ∧
      (∀ before offset group after,
        header.items = before ++ ⟨offset, .entity (.macroGroup group)⟩ :: after →
        Placed.functions settings header.items =
          Text.join ['\n'] (before.map (·.item.output settings) ++
            group.function settings.macroFunction settings.macroSentinel ::
              after.map (·.item.output settings)) ∧
        ∃ part ∈ forest.parts header.source 0 none,
          inRegion? settings.macroLead header.source part.region = some group) ∧
      ∀ holds, Guard.Lawful holds → ∀ before group before' group',
        header.Active holds before group → header.Active holds before' group' →
        ∀ part ∈ forest.parts header.source 0 none, ∀ part' ∈ forest.parts header.source 0 none,
          inRegion? settings.macroLead header.source part.region = some group →
          inRegion? settings.macroLead header.source part'.region = some group' →
          (part.region = part'.region → before = before') ∧
          (∀ scope ∈ forest.covering part.region, holds scope.block.guard = true) ∧
          ∀ scope ∈ forest.covering part.region, ∀ other ∈ forest.covering part'.region,
            other.block.guard ≠ scope.block.guard.complement := by
  obtain ⟨header, hHeader, rfl⟩ := map_eq_ok_iff.mp h
  obtain ⟨finders, forest, hScans, rfl⟩ := exists_scans_of_ofText hHeader
  refine ⟨_, forest, hHeader, rfl, hScans.isOf, ?_, ?_⟩
  · intro before offset group after hSplit
    obtain ⟨part, _, hOrigin, _⟩ := exists_origin hScans hSplit
    exact ⟨functions_of_split settings hSplit, part, hOrigin.mem_parts, hOrigin.inRegion⟩
  · rintro holds hLawful before group before' group' ⟨offset, guards, after, hSplit, hAround, hAll⟩
      ⟨offset', guards', after', hSplit', hAround', hAll'⟩ part hPart part' hPart' hGroup hGroup'
    have hHolds := holds_of_active hGuarded hScans hSplit hAround hAll hPart hGroup
    have hHolds' := holds_of_active hGuarded hScans hSplit' hAround' hAll' hPart' hGroup'
    refine ⟨?_, hHolds, ?_⟩
    · intro hSame
      rw [hSame, hGroup'] at hGroup
      cases hGroup
      obtain ⟨_, first, hOrigin, rfl⟩ := exists_origin hScans hSplit
      obtain ⟨_, first', hOrigin', rfl⟩ := exists_origin hScans hSplit'
      obtain rfl : first = first' := by
        have hHead := hOrigin.head
        rw [hOrigin'.head] at hHead
        exact (Option.some.inj hHead).symm
      exact Placed.before_eq_of_offset_eq hSplit hSplit' rfl rfl rfl
    · intro scope hScope other hOther hComplement
      have hTrue := hHolds' other hOther
      rw [hComplement, hLawful.complement, hHolds scope hScope] at hTrue
      cases hTrue

/-- A header with a group on either side of a block. -/
def alternating : Text :=
  ("#ifdef A\n#define MBEDTLS_TLS1_3_SIG_X 0x1\n#else\n#define MBEDTLS_TLS1_3_SIG_Y 0x2\n" ++
    "#endif\n").toList

/-- The forest of that header. -/
def alternatingForest : Forest :=
  .branch ⟨⟨.defined, "A".toList⟩, ⟨0, 8⟩⟩ .nil .alternative ⟨42, 47⟩
    (.branch ⟨⟨.undefined, "A".toList⟩, ⟨42, 47⟩⟩ .nil .final ⟨81, 87⟩ .nil)

theorem isOf_alternating :
    Forest.IsOf (directiveLines (Comment.strip alternating)) alternatingForest := by
  have hLines : directiveLines (Comment.strip alternating) =
      [⟨.opens .defined, "A".toList, ⟨0, 8⟩⟩, ⟨.closes .alternative, [], ⟨42, 47⟩⟩,
        ⟨.closes .final, [], ⟨81, 87⟩⟩] := by decide +kernel
  rw [hLines]
  have hSecond : Forest.Reads (some ⟨⟨.undefined, "A".toList⟩, ⟨42, 47⟩⟩)
      [⟨.closes .final, [], ⟨81, 87⟩⟩]
      (.branch ⟨⟨.undefined, "A".toList⟩, ⟨42, 47⟩⟩ .nil .final ⟨81, 87⟩ .nil) [] :=
    .closes (.stop (by simp)) rfl (.stop (by simp))
  exact .opens rfl (.closes (.stop (by simp)) rfl hSecond)

/-- In that header at most one of the groups is compiled, whatever holds. -/
theorem active_groups_alternating :
    ({} : Settings).unguardedOutermost = false ∧
      ∃ output header, generate alternating {} = .ok output ∧
        ofText alternating {} = .ok header ∧
        ∀ holds, Guard.Lawful holds → ∀ before group before' group',
          header.Active holds before group → header.Active holds before' group' →
          before = before' := by
  obtain ⟨finders, hFinders⟩ : ∃ finders, ({} : Settings).finders = .ok finders :=
    exists_finders (by decide)
  have hRun : ((State.initial.run (({} : Settings).setup finders alternating)
      (directiveLines (Comment.strip alternating))).map State.ready).toOption.isSome = true := by
    cases hFinders
    decide +kernel
  obtain ⟨output, hOutput⟩ : ∃ output, generate alternating {} = .ok output :=
    ⟨_, by rw [generate, ofText_of_found hFinders hRun rfl, Except.map]⟩
  have hGuarded : ({} : Settings).unguardedOutermost = false := rfl
  obtain ⟨header, forest, hHeader, _, hForest, hOrigins, hActive⟩ :=
    active_groups_of_generate hGuarded hOutput
  obtain ⟨_, _, _, rfl⟩ := exists_scans_of_ofText hHeader
  obtain ⟨rfl, _⟩ := Forest.Reads.unique hForest isOf_alternating
  refine ⟨hGuarded, output, _, hOutput, hHeader, ?_⟩
  intro holds hLawful before group before' group' hFirst hSecond
  have hRegions : ∀ part ∈ alternatingForest.parts (Comment.strip alternating) 0 none,
      (inRegion? ({} : Settings).macroLead (Comment.strip alternating) part.region).isSome →
        part.region = ⟨8, 42⟩ ∨ part.region = ⟨47, 81⟩ := by decide +kernel
  have hPlace := hFirst
  have hPlace' := hSecond
  obtain ⟨_, _, _, hSplit, _⟩ := hPlace
  obtain ⟨_, _, _, hSplit', _⟩ := hPlace'
  obtain ⟨_, part, hPart, hGroup⟩ := hOrigins _ _ _ _ hSplit
  obtain ⟨_, part', hPart', hGroup'⟩ := hOrigins _ _ _ _ hSplit'
  obtain ⟨hSame, _, hApart⟩ := hActive holds hLawful _ _ _ _ hFirst hSecond
    part hPart part' hPart' hGroup hGroup'
  have hIf : ⟨⟨⟨.defined, "A".toList⟩, ⟨0, 8⟩⟩, 42⟩ ∈
      alternatingForest.covering ⟨8, 42⟩ := by decide
  have hElse : ⟨⟨⟨.undefined, "A".toList⟩, ⟨42, 47⟩⟩, 81⟩ ∈
      alternatingForest.covering ⟨47, 81⟩ := by decide
  rcases hRegions part hPart (by rw [hGroup]; rfl) with hOwn | hOwn
  · rcases hRegions part' hPart' (by rw [hGroup']; rfl) with hOwn' | hOwn'
    · exact hSame (hOwn.trans hOwn'.symm)
    · exact absurd rfl (hApart _ (hOwn ▸ hIf) _ (hOwn' ▸ hElse))
  · rcases hRegions part' hPart' (by rw [hGroup']; rfl) with hOwn' | hOwn'
    · exact absurd rfl (hApart _ (hOwn ▸ hElse) _ (hOwn' ▸ hIf))
    · exact hSame (hOwn.trans hOwn'.symm)

/-- A header whose macros are defined on both sides of a block that has none. -/
def interrupted : Text :=
  ("#define MBEDTLS_TLS1_3_SIG_X 0x1\n#ifdef A\nint a;\n#endif\n" ++
    "#define MBEDTLS_TLS1_3_SIG_Y 0x2\n").toList

/-- The group ahead of the block. -/
def groupAhead : MacroGroup :=
  ⟨"MBEDTLS_TLS1_3_SIG_".toList, [⟨"MBEDTLS_TLS1_3_SIG_X".toList, "0x1".toList, ⟨0, 32⟩⟩]⟩

/-- The group behind the block. -/
def groupBehind : MacroGroup :=
  ⟨"MBEDTLS_TLS1_3_SIG_".toList, [⟨"MBEDTLS_TLS1_3_SIG_Y".toList, "0x2".toList, ⟨56, 88⟩⟩]⟩

/-- The items of that header. -/
def interruptedItems : List Placed :=
  [⟨0, .entity (.macroGroup groupAhead)⟩, ⟨56, .entity (.macroGroup groupBehind)⟩]

theorem ordered_interruptedItems : Placed.ordered interruptedItems = interruptedItems := by
  have hAscending : Placed.Ascending interruptedItems := by
    unfold Placed.Ascending
    decide
  exact Placed.ordered_of_ascending hAscending (by decide)

theorem ofText_interrupted :
    ofText interrupted {} = .ok ⟨Comment.strip interrupted, interruptedItems⟩ := by
  obtain ⟨finders, hFinders⟩ : ∃ finders, ({} : Settings).finders = .ok finders :=
    exists_finders (by decide)
  rw [← ordered_interruptedItems]
  refine ofText_of_found hFinders ?_ ?_
  · cases hFinders
    decide +kernel
  · cases hFinders
    decide +kernel

/-- In that header two groups are compiled together, and the function is defined twice. -/
theorem interrupted_defines_twice :
    ({} : Settings).unguardedOutermost = false ∧
      ∃ header holds before before', ofText interrupted {} = .ok header ∧
        generate interrupted {} = .ok (outputFile {} (Text.join ['\n']
          [groupAhead.function ({} : Settings).macroFunction ({} : Settings).macroSentinel,
            groupBehind.function ({} : Settings).macroFunction ({} : Settings).macroSentinel])) ∧
        Guard.Lawful holds ∧ header.Active holds before groupAhead ∧
        header.Active holds before' groupBehind ∧ before ≠ before' := by
  obtain ⟨holds, hLawful, _⟩ := Guard.exists_lawful fun _ => true
  refine ⟨rfl, _, holds, [], [⟨0, .entity (.macroGroup groupAhead)⟩], ofText_interrupted, ?_,
    hLawful, ⟨0, [], [⟨56, .entity (.macroGroup groupBehind)⟩], rfl, ?_, rfl⟩,
    ⟨56, [], [], rfl, ?_, rfl⟩, by decide⟩
  · rw [generate, ofText_interrupted, Except.map, outputFileOf, Placed.functions,
      ordered_interruptedItems]
    rfl
  · exact .here .nil (.entity .nil)
  · exact .here (.entity .nil) .nil

end ScannedHeader

end ValueNames
