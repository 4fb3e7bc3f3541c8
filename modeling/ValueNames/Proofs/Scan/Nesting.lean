import ValueNames.Proofs.Item.Nesting
import ValueNames.Proofs.Scan.Collect

/-!
# The guards of a scan are nested

The guard lines that a scan hands out come from the branches as they end, and
are put in order by a stable sort. In the order of the source they are read off
the forest: the opening line of a branch, the lines of the branches inside it,
its closing line, and then the branches behind it. Sorting gives just that.

## Main results

* `filter_guard_ordered_parts` — the guard lines of a scan are those of its forest.
* `Forest.wellNested_of_filter` — items with the guard lines of a forest are well nested.
* `wellNested_collect` — the guards that a scan hands out are well nested, each
  pair around an entity, and a listing indents by the number of open pairs.
-/

namespace ValueNames

open Scan Placed

/-! ## The guard lines of a forest -/

/--
The guard lines of a forest in the order of the source. `guards` says which
scopes have them, and is told whether the scope is at the outermost level.
-/
def Forest.guardLines (guards : Scope → Bool → Bool) (outermost : Bool) : Forest → List Placed
  | nil => []
  | branch block inside _ closed after =>
      let scope : Scope := ⟨block, closed.start⟩
      let inner := inside.guardLines guards false
      (if guards scope outermost then scope.openingLine :: (inner ++ [scope.closingLine])
        else inner) ++ after.guardLines guards outermost

namespace Forest

variable {guards : Scope → Bool → Bool}

/-- The guard lines of a forest stand where its branches do. -/
theorem Within.guardLines {low high : Nat} {forest : Forest} {outermost : Bool}
    (h : forest.Within low high) {placed : Placed}
    (hPlaced : placed ∈ forest.guardLines guards outermost) :
    low ≤ placed.offset ∧ placed.offset < high := by
  induction forest generalizing low high outermost with
  | nil => simp [Forest.guardLines] at hPlaced
  | branch block inside closer closed after ihInside ihAfter =>
      obtain ⟨hLow, hOpened, hRegion, hClosed, hHigh, hInside, hAfter⟩ := h
      have hInner : placed ∈ inside.guardLines guards false →
          low ≤ placed.offset ∧ placed.offset < high := by
        intro hMem
        have hBetween := ihInside hInside hMem
        omega
      simp only [Forest.guardLines, List.mem_append] at hPlaced
      rcases hPlaced with hPlaced | hPlaced
      · split at hPlaced
        · simp only [List.mem_cons, List.mem_append, List.not_mem_nil, or_false] at hPlaced
          rcases hPlaced with rfl | hPlaced | rfl
          · simp only [Scope.openingLine]
            omega
          · exact hInner hPlaced
          · simp only [Scope.closingLine]
            omega
        · exact hInner hPlaced
      · have hBehind := ihAfter hAfter hPlaced
        omega

theorem ascending_guardLines {low high : Nat} {forest : Forest} {outermost : Bool}
    (h : forest.Within low high) : Ascending (forest.guardLines guards outermost) := by
  induction forest generalizing low high outermost with
  | nil => exact List.Pairwise.nil
  | branch block inside closer closed after ihInside ihAfter =>
      obtain ⟨hLow, hOpened, hRegion, hClosed, hHigh, hInside, hAfter⟩ := h
      have hInner : Ascending (inside.guardLines guards false) := ihInside hInside
      refine List.pairwise_append.mpr ⟨?_, ihAfter hAfter, ?_⟩
      · split
        · refine List.pairwise_cons.mpr ⟨?_, List.pairwise_append.mpr ⟨hInner, by simp, ?_⟩⟩
          · intro placed hPlaced
            rcases List.mem_append.mp hPlaced with hPlaced | hPlaced
            · have hBetween := hInside.guardLines hPlaced
              simp only [Scope.openingLine]
              omega
            · obtain rfl := List.mem_singleton.mp hPlaced
              simp only [Scope.openingLine, Scope.closingLine]
              omega
          · intro placed hPlaced last hLast
            obtain rfl := List.mem_singleton.mp hLast
            have hBetween := hInside.guardLines hPlaced
            simp only [Scope.closingLine]
            omega
        · exact hInner
      · intro placed hPlaced other hOther
        have hBehind := hAfter.guardLines hOther
        have hBefore : placed.offset ≤ closed.start := by
          split at hPlaced
          · simp only [List.mem_cons, List.mem_append, List.not_mem_nil, or_false] at hPlaced
            rcases hPlaced with rfl | hPlaced | rfl
            · simp only [Scope.openingLine]
              omega
            · have hBetween := hInside.guardLines hPlaced
              omega
            · exact Nat.le_refl _
          · have hBetween := hInside.guardLines hPlaced
            omega
        omega

end Forest

namespace Scan

/-- Whether the scan puts guard lines around what it finds in a scope. -/
def Setup.guards (setup : Setup) (scope : Scope) (outermost : Bool) : Bool :=
  setup.seen scope.region ≠ [] && !(setup.unguardedOutermost && outermost)

variable {setup : Setup}

theorem filter_guard_seen (hInside : setup.FindsInside) (region : Span) :
    (setup.seen region).filter (!·.item.isEntity) = [] := by
  apply List.filter_eq_nil_iff.mpr
  intro placed hPlaced
  simp [(Setup.mem_seen hInside hPlaced).1]

/-- The guard lines among the items of a branch. -/
theorem filter_guard_itemsOf (hInside : setup.FindsInside) (scope : Scope) (outermost : Bool) :
    (setup.itemsOf (.branch scope outermost)).filter (!·.item.isEntity) =
      if setup.guards scope outermost then [scope.openingLine, scope.closingLine] else [] := by
  have hSeen := filter_guard_seen hInside scope.region
  by_cases hNone : setup.seen scope.region = []
  · simp [Setup.itemsOf, Setup.guards, hNone]
  · by_cases hOutermost : setup.unguardedOutermost = true ∧ outermost = true
    · simp [Setup.itemsOf, Setup.guards, hNone, hOutermost, hSeen]
    · have hGuards : setup.guards scope outermost = true := by
        have hNot : (setup.unguardedOutermost && outermost) = false := by
          rw [← Bool.not_eq_true, Bool.and_eq_true]
          exact hOutermost
        simp [Setup.guards, hNone, hNot]
      have hItems : setup.itemsOf (.branch scope outermost) =
          scope.openingLine :: (setup.seen scope.region ++ [scope.closingLine]) :=
        if_neg (by simp [hNone, hOutermost])
      rw [hItems, hGuards, List.filter_cons_of_pos rfl, List.filter_append, hSeen,
        List.filter_cons_of_pos rfl]
      rfl

/-! ## From the parts to the order of the source -/

/-- What is found outside all blocks has no guard lines. -/
theorem filter_guard_parts (hInside : setup.FindsInside) (forest : Forest) (source : Text)
    (pendingFrom : Nat) (within : Option Bool) :
    ((forest.parts source pendingFrom within).flatMap setup.itemsOf).filter (!·.item.isEntity) =
      ((forest.branches true).flatMap setup.itemsOf).filter (!·.item.isEntity) := by
  have hTop : ∀ region, (setup.itemsOf (.topLevel region)).filter (!·.item.isEntity) = [] :=
    filter_guard_seen hInside
  induction forest generalizing pendingFrom within with
  | nil => simp [Forest.parts, Forest.branches, hTop]
  | branch block inside closer closed after _ ihAfter =>
      simp only [Forest.parts, Forest.branches, List.flatMap_append, List.flatMap_cons,
        List.filter_append]
      have hChunk : ∀ chunk : Prop, [Decidable chunk] → ∀ region,
          (((if chunk then [Part.topLevel region] else []).flatMap setup.itemsOf).filter
            (!·.item.isEntity)) = [] := by
        intro chunk _ region
        split
        · simpa using hTop region
        · rfl
      rw [hChunk, List.nil_append]
      cases closer with
      | alternative => rw [ihAfter]
      | final => rw [ihAfter]

/-- At every single offset the guard lines come in the order of the source. -/
theorem filter_offset_guardLines (hInside : setup.FindsInside) {forest : Forest} {low high : Nat}
    (h : forest.Within low high) (outermost : Bool) (offset : Nat) :
    (forest.guardLines setup.guards outermost).filter (standsAt offset) =
      (((forest.branches outermost).flatMap setup.itemsOf).filter (!·.item.isEntity)).filter
        (standsAt offset) := by
  induction forest generalizing low high outermost with
  | nil => rfl
  | branch block inside closer closed after ihInside ihAfter =>
      obtain ⟨hLow, hOpened, hRegion, hClosed, hHigh, hInner, hAfter⟩ := h
      simp only [Forest.guardLines, Forest.branches, List.flatMap_append, List.flatMap_cons,
        List.filter_append, ← ihInside hInner, ← ihAfter hAfter, filter_guard_itemsOf hInside,
        ← List.append_assoc]
      congr 1
      by_cases hGuards : setup.guards ⟨block, closed.start⟩ outermost = true
      · rw [if_pos hGuards, if_pos hGuards]
        -- Nothing inside the branch shares the offset of its opening line.
        by_cases hHere : block.opened.start = offset
        · have hNone : (inside.guardLines setup.guards false).filter (standsAt offset) = [] := by
            apply List.filter_eq_nil_iff.mpr
            intro placed hPlaced
            have hBetween := hInner.guardLines hPlaced
            rw [standsAt_iff]
            omega
          simp [Scope.openingLine, hHere, hNone, List.filter_cons]
        · simp [Scope.openingLine, hHere, List.filter_cons]
      · rw [if_neg hGuards, if_neg hGuards]
        simp

/-- The guard lines that a scan hands out are those of its forest in the order of the source. -/
theorem filter_guard_ordered_parts (hInside : setup.FindsInside) {forest : Forest} {high : Nat}
    (h : forest.Within 0 high) (source : Text) :
    (ordered ((forest.parts source 0 none).flatMap setup.itemsOf)).filter (!·.item.isEntity) =
      forest.guardLines setup.guards true := by
  rw [filter_guard_ordered, filter_guard_parts hInside]
  exact sorted_eq_of_filter (Forest.ascending_guardLines h)
    fun offset => filter_offset_guardLines hInside h true offset

end Scan

/-! ## Items between the guard lines of a forest -/

namespace Forest

variable {guards : Scope → Bool → Bool}

/-- Every scope with guard lines holds an entity of the list. -/
def Filled (guards : Scope → Bool → Bool) (all : List Placed) (forest : Forest) : Prop :=
  ∀ scope ∈ forest.scopes, ∀ outermost, guards scope outermost = true →
    ∃ placed ∈ all, placed.item.isEntity = true ∧ scope.region.start ≤ placed.offset ∧
      placed.offset < scope.region.stop

section Filled

variable {all : List Placed} {block : Block} {inner later : Forest} {closer : Closer}
  {closed : Span}

theorem Filled.inside (h : (branch block inner closer closed later).Filled guards all) :
    inner.Filled guards all :=
  fun scope hScope => h scope (by simp [scopes, hScope])

theorem Filled.after (h : (branch block inner closer closed later).Filled guards all) :
    later.Filled guards all :=
  fun scope hScope => h scope (by simp [scopes, hScope])

end Filled

/-- Items among which the guard lines are those of a pair, of what it holds and of what follows. -/
theorem exists_split_of_filter {items inner after : List Placed} {scope : Scope}
    (h : items.filter (!·.item.isEntity) =
      scope.openingLine :: (inner ++ [scope.closingLine]) ++ after) :
    ∃ before inside behind,
      items = before ++ scope.openingLine :: (inside ++ scope.closingLine :: behind) ∧
        (∀ placed ∈ before, placed.item.isEntity = true) ∧
        inside.filter (!·.item.isEntity) = inner ∧ behind.filter (!·.item.isEntity) = after := by
  rw [List.cons_append, List.append_assoc] at h
  obtain ⟨before, rest, rfl, hBefore, _, hRest⟩ := List.filter_eq_cons_iff.mp h
  obtain ⟨inside, tail, rfl, hInside, hTail⟩ := List.filter_eq_append_iff.mp hRest
  obtain ⟨between, behind, rfl, hBetween, _, hBehind⟩ := List.filter_eq_cons_iff.mp hTail
  refine ⟨before, inside ++ between, behind, by simp, ?_, ?_, hBehind⟩
  · intro placed hPlaced
    simpa using hBefore placed hPlaced
  · rw [List.filter_append, hInside, List.filter_eq_nil_iff.mpr hBetween, List.append_nil]

section Infix

variable {all before between behind : List Placed} {first last : Placed}

/-- What is between two items is part of what they are part of. -/
theorem infix_between (h : before ++ first :: (between ++ last :: behind) <:+: all) :
    between <:+: all :=
  List.IsInfix.trans ⟨before ++ [first], last :: behind, by simp⟩ h

theorem infix_behind (h : before ++ first :: (between ++ last :: behind) <:+: all) :
    behind <:+: all :=
  List.IsInfix.trans ⟨before ++ first :: (between ++ [last]), [], by simp⟩ h

theorem infix_pair (h : before ++ first :: (between ++ last :: behind) <:+: all) :
    first :: (between ++ [last]) <:+: all :=
  List.IsInfix.trans ⟨before, behind, by simp⟩ h

end Infix

/-- A scope that holds an entity of an ascending list has it between its guard lines. -/
theorem exists_entity_between {all inside : List Placed} {scope : Scope} (hAll : Ascending all)
    (hPart : scope.openingLine :: (inside ++ [scope.closingLine]) <:+: all)
    (hOpened : scope.block.opened.start < scope.region.start)
    (hHolds : ∃ placed ∈ all, placed.item.isEntity = true ∧
      scope.region.start ≤ placed.offset ∧ placed.offset < scope.region.stop) :
    ∃ item ∈ inside.map (·.item), item.isEntity = true := by
  obtain ⟨placed, hPlaced, hEntity, hStart, hStop⟩ := hHolds
  obtain ⟨front, back, rfl⟩ := hPart
  have hOpening : scope.openingLine.offset = scope.block.opened.start := rfl
  have hClosing : scope.closingLine.offset = scope.region.stop := rfl
  have hMem : placed ∈ inside := by
    simp only [List.mem_append, List.mem_cons, List.not_mem_nil, or_false] at hPlaced
    rcases hPlaced with (hPlaced | rfl | hPlaced | rfl) | hPlaced
    · have hLess : placed.offset ≤ scope.openingLine.offset :=
        hAll.le_of_append (List.append_assoc _ _ _) hPlaced (by simp)
      omega
    · omega
    · exact hPlaced
    · omega
    · have hLess : scope.closingLine.offset ≤ placed.offset :=
        hAll.le_of_append rfl (by simp) hPlaced
      omega
  exact ⟨_, List.mem_map_of_mem hMem, hEntity⟩

theorem wellNested_of_entities {items : List Placed}
    (h : ∀ placed ∈ items, placed.item.isEntity = true) :
    Item.WellNested (items.map (·.item)) := by
  apply Item.WellNested.of_entities
  intro item hItem
  obtain ⟨placed, hPlaced, rfl⟩ := List.mem_map.mp hItem
  exact h placed hPlaced

/--
Items with the guard lines of a forest are well nested, if every scope with
guard lines holds an entity. The items are part of an ascending list, in which
the entity may be looked for.
-/
theorem wellNested_of_filter {all : List Placed} (hAll : Ascending all) {forest : Forest}
    {low high : Nat} (hWithin : forest.Within low high) (hFilled : forest.Filled guards all)
    {outermost : Bool} {items : List Placed} (hPart : items <:+: all)
    (hFilter : items.filter (!·.item.isEntity) = forest.guardLines guards outermost) :
    Item.WellNested (items.map (·.item)) := by
  induction forest generalizing low high outermost items with
  | nil =>
      apply wellNested_of_entities
      intro placed hPlaced
      simpa using List.filter_eq_nil_iff.mp hFilter placed hPlaced
  | branch block inside closer closed after ihInside ihAfter =>
      obtain ⟨hLow, hOpened, hRegion, hClosed, hHigh, hInside, hAfter⟩ := hWithin
      simp only [guardLines] at hFilter
      by_cases hGuards : guards ⟨block, closed.start⟩ outermost = true
      · rw [if_pos hGuards] at hFilter
        obtain ⟨before, between, behind, rfl, hBefore, hBetween, hBehind⟩ :=
          exists_split_of_filter hFilter
        have hInner := ihInside hInside hFilled.inside (infix_between hPart) hBetween
        have hRest := ihAfter hAfter hFilled.after (infix_behind hPart) hBehind
        have hEntity := exists_entity_between hAll (infix_pair hPart) hOpened
          (hFilled ⟨block, closed.start⟩ (by simp [scopes]) outermost hGuards)
        rw [List.map_append, List.map_cons, List.map_append, List.map_cons]
        exact (wellNested_of_entities hBefore).append (.pair hInner hEntity hRest)
      · rw [if_neg hGuards] at hFilter
        obtain ⟨first, second, rfl, hFirst, hSecond⟩ := List.filter_eq_append_iff.mp hFilter
        have hFirstPart : first <:+: all := (List.prefix_append _ _).isInfix.trans hPart
        have hSecondPart : second <:+: all := (List.suffix_append _ _).isInfix.trans hPart
        have hInner := ihInside hInside hFilled.inside hFirstPart hFirst
        have hRest := ihAfter hAfter hFilled.after hSecondPart hSecond
        rw [List.map_append]
        exact hInner.append hRest

theorem exists_mem_branches {forest : Forest} {scope : Scope} (h : scope ∈ forest.scopes)
    (outermost : Bool) : ∃ level, Part.branch scope level ∈ forest.branches outermost := by
  induction forest generalizing outermost with
  | nil => simp [scopes] at h
  | branch block inside closer closed after ihInside ihAfter =>
      simp only [scopes, List.mem_cons, List.mem_append] at h
      simp only [branches, List.mem_append, List.mem_cons]
      rcases h with rfl | h | h
      · exact ⟨outermost, .inr (.inl rfl)⟩
      · obtain ⟨level, hMem⟩ := ihInside h false
        exact ⟨level, .inl hMem⟩
      · obtain ⟨level, hMem⟩ := ihAfter h outermost
        exact ⟨level, .inr (.inr hMem)⟩

/-- Every branch of a source is looked at. -/
theorem exists_mem_parts {forest : Forest} {scope : Scope} (h : scope ∈ forest.scopes)
    (source : Text) (pendingFrom : Nat) (within : Option Bool) :
    ∃ level, Part.branch scope level ∈ forest.parts source pendingFrom within := by
  induction forest generalizing pendingFrom within with
  | nil => simp [scopes] at h
  | branch block inside closer closed after _ ihAfter =>
      simp only [scopes, List.mem_cons, List.mem_append] at h
      simp only [parts, List.mem_append, List.mem_cons]
      rcases h with rfl | h | h
      · exact ⟨true, .inr (.inl rfl)⟩
      · obtain ⟨level, hMem⟩ := exists_mem_branches h false
        exact ⟨level, .inl (.inr hMem)⟩
      · cases closer with
        | alternative =>
            obtain ⟨level, hMem⟩ := ihAfter h pendingFrom
              (some (within.getD (braceOpen source pendingFrom block.opened.start)))
            exact ⟨level, .inr (.inr hMem)⟩
        | final =>
            obtain ⟨level, hMem⟩ := ihAfter h
              (if within.getD (braceOpen source pendingFrom block.opened.start) then pendingFrom
                else closed.stop) none
            exact ⟨level, .inr (.inr hMem)⟩

end Forest

/-! ## The guards of a scan -/

namespace Scan

variable {setup : Setup}

/-- What is seen in a scope leaves an entity among the items. -/
theorem filled_ordered_parts (hInside : setup.FindsInside) (forest : Forest) (source : Text) :
    forest.Filled setup.guards
      (ordered ((forest.parts source 0 none).flatMap setup.itemsOf)) := by
  intro scope hScope outermost hGuards
  have hSome : setup.seen scope.region ≠ [] := by
    intro hNone
    simp [Setup.guards, hNone] at hGuards
  obtain ⟨placed, hPlaced⟩ := List.exists_mem_of_ne_nil _ hSome
  obtain ⟨hEntity, hStart, hStop⟩ := Setup.mem_seen hInside hPlaced
  obtain ⟨level, hPart⟩ := Forest.exists_mem_parts hScope source 0 none
  have hItem : placed ∈ setup.itemsOf (.branch scope level) := by
    simp only [Setup.itemsOf]
    split
    · exact hPlaced
    · simp [hPlaced]
  obtain ⟨kept, hKept, hKeptEntity, hOffset⟩ :=
    exists_entity_ordered (List.mem_flatMap.mpr ⟨_, hPart, hItem⟩) hEntity
  exact ⟨kept, hKept, hKeptEntity, by omega, by omega⟩

/--
The guards that a scan hands out are well nested, each pair around an entity.
So a listing, which indents by the number of open pairs, never meets a closing
line at depth zero, and is at depth zero when it ends.
-/
theorem wellNested_collect (hInside : setup.FindsInside) {items : List Placed}
    (h : (Cursor.start setup).collect = .ok items) :
    Item.WellNested (items.map (·.item)) ∧
      (∀ front back, items.map (·.item) = front ++ back →
        Item.closings front ≤ Item.openings front) ∧
      Item.openings (items.map (·.item)) = Item.closings (items.map (·.item)) ∧
      (∀ front line back, items.map (·.item) = front ++ .guard line :: back →
        line.closing = true → 0 < Item.depthAfter 0 front) ∧
      Item.depthAfter 0 (items.map (·.item)) = 0 := by
  obtain ⟨forest, hForest, rfl⟩ := eq_ordered_of_collect hInside h
  obtain ⟨high, hWithin⟩ := hForest.within
  have hNested := Forest.wellNested_of_filter (ascending_ordered _) hWithin
    (filled_ordered_parts hInside forest setup.source) (List.infix_refl _)
    (filter_guard_ordered_parts hInside hWithin setup.source)
  exact ⟨hNested, hNested.closings_le_openings,
    hNested.openings_eq_closings, hNested.depthAfter_pos, hNested.depthAfter_eq⟩

/-- The guards of a source with nested blocks. -/
theorem wellNested_collect_nested :
    ∃ items, Setup.nested.FindsInside ∧ (Cursor.start Setup.nested).collect = .ok items ∧
      Item.WellNested (items.map (·.item)) ∧
      (∀ front back, items.map (·.item) = front ++ back →
        Item.closings front ≤ Item.openings front) ∧
      Item.openings (items.map (·.item)) = Item.closings (items.map (·.item)) ∧
      (∀ front line back, items.map (·.item) = front ++ .guard line :: back →
        line.closing = true → 0 < Item.depthAfter 0 front) ∧
      Item.depthAfter 0 (items.map (·.item)) = 0 := by
  obtain ⟨items, hItems⟩ : ∃ items, ((State.initial.run Setup.nested
      (Conditional.directiveLines Setup.nested.source)).map State.ready).toOption = some items :=
    Option.isSome_iff_exists.mp (by decide +kernel)
  exact ⟨items, findsInside_nested, collect_of_run hItems,
    wellNested_collect findsInside_nested (collect_of_run hItems)⟩

end Scan

end ValueNames
