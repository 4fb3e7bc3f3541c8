import ValueNames.Proofs.Item.Around
import ValueNames.Proofs.Scan.Nesting

/-!
# The guards around an entity

An entity stands in the list of items where it stands in the source. So the
pairs of guard lines around it are those of the scopes around it, as far as
these have guard lines.

## Main results

* `Forest.around_of_filter` — the pairs around an item are those of the scopes
  around its offset that have guard lines.
* `Scan.around_ordered_parts` — in what a scan hands out they are those of all
  scopes around, if these have guard lines.
-/

namespace ValueNames

open Scan Placed

namespace Forest

variable {guards : Scope → Bool → Bool}

/-- The scopes around an offset that have guard lines, outermost first. -/
def guarding (guards : Scope → Bool → Bool) (offset : Nat) (outermost : Bool) :
    Forest → List Scope
  | nil => []
  | branch block inside _ closed after =>
      (if guards ⟨block, closed.start⟩ outermost && Scope.encloses offset ⟨block, closed.start⟩ then
          [⟨block, closed.start⟩]
        else []) ++
        (inside.guarding guards offset false ++ after.guarding guards offset outermost)

theorem guarding_sublist (offset : Nat) (outermost : Bool) (forest : Forest) :
    (forest.guarding guards offset outermost).Sublist (forest.enclosing offset) := by
  induction forest generalizing outermost with
  | nil => exact List.Sublist.refl _
  | branch block inside closer closed after ihInside ihAfter =>
      rw [guarding, enclosing_branch]
      refine List.Sublist.append ?_ ((ihInside false).append (ihAfter outermost))
      cases Scope.encloses offset ⟨block, closed.start⟩ with
      | false => simp
      | true =>
          cases guards ⟨block, closed.start⟩ outermost with
          | false => simp
          | true => simp

theorem guarding_eq_nil {offset : Nat} {outermost : Bool} {forest : Forest}
    (h : forest.enclosing offset = []) : forest.guarding guards offset outermost = [] :=
  List.sublist_nil.mp (h ▸ guarding_sublist offset outermost forest)

/-- Where all the scopes around an offset have guard lines, nothing is left out. -/
theorem guarding_eq_enclosing {offset : Nat} {forest : Forest}
    (h : ∀ scope ∈ forest.scopes, scope.encloses offset = true →
      ∀ outermost, guards scope outermost = true) (outermost : Bool) :
    forest.guarding guards offset outermost = forest.enclosing offset := by
  induction forest generalizing outermost with
  | nil => rfl
  | branch block inside closer closed after ihInside ihAfter =>
      have hInside := ihInside (fun scope hScope => h scope (by simp [scopes, hScope])) false
      have hAfter := ihAfter (fun scope hScope => h scope (by simp [scopes, hScope])) outermost
      have hOwn : (guards ⟨block, closed.start⟩ outermost &&
          Scope.encloses offset ⟨block, closed.start⟩) =
            Scope.encloses offset ⟨block, closed.start⟩ := by
        cases hAround : Scope.encloses offset ⟨block, closed.start⟩ with
        | false => simp
        | true => simp [h ⟨block, closed.start⟩ (by simp [scopes]) hAround outermost]
      rw [guarding, enclosing_branch, hOwn, hInside, hAfter]

/-- A scope around an offset that has guard lines at every level is among those with guard lines. -/
theorem mem_guarding {offset : Nat} {forest : Forest} {scope : Scope}
    (hScope : scope ∈ forest.enclosing offset)
    (hGuards : ∀ outermost, guards scope outermost = true) (outermost : Bool) :
    scope ∈ forest.guarding guards offset outermost := by
  induction forest generalizing outermost with
  | nil => cases hScope
  | branch block inside closer closed after ihInside ihAfter =>
      rw [enclosing_branch] at hScope
      rw [guarding]
      rcases List.mem_append.mp hScope with hOwn | hRest
      · split at hOwn
        · rename_i hAround
          obtain rfl := List.mem_singleton.mp hOwn
          simp [hGuards, hAround]
        · cases hOwn
      · rcases List.mem_append.mp hRest with hScope | hScope
        · simp [ihInside hScope false]
        · simp [ihAfter hScope outermost]

/-- The lines of a scope with guard lines are among those of the forest. -/
theorem mem_guardLines {offset : Nat} {forest : Forest} {scope : Scope} {outermost : Bool}
    (hScope : scope ∈ forest.guarding guards offset outermost) :
    scope.openingLine ∈ forest.guardLines guards outermost ∧
      scope.closingLine ∈ forest.guardLines guards outermost := by
  induction forest generalizing outermost with
  | nil => cases hScope
  | branch block inside closer closed after ihInside ihAfter =>
      simp only [guarding, List.mem_append] at hScope
      simp only [guardLines, List.mem_append]
      rcases hScope with hOwn | hScope | hScope
      · split at hOwn
        · rename_i hBoth
          obtain rfl := List.mem_singleton.mp hOwn
          rw [if_pos (Bool.and_eq_true_iff.mp hBoth).1]
          simp
        · cases hOwn
      · obtain ⟨hOpening, hClosing⟩ := ihInside hScope
        constructor
        · left
          split
          · simp [hOpening]
          · exact hOpening
        · left
          split
          · simp [hClosing]
          · exact hClosing
      · obtain ⟨hOpening, hClosing⟩ := ihAfter hScope
        exact ⟨.inr hOpening, .inr hClosing⟩

/-- An entity stands where no scope begins or ends. -/
structure Apart (entity : Placed) (forest : Forest) : Prop where
  isEntity : entity.item.isEntity = true
  apart : ∀ scope ∈ forest.scopes,
    entity.offset ≠ scope.block.opened.start ∧ entity.offset ≠ scope.closedAt

/--
How an entity stands to the scopes: none of them begins or ends where it stands,
and those around it have guard lines.
-/
structure Meets (guards : Scope → Bool → Bool) (entity : Placed) (forest : Forest) : Prop
    extends forest.Apart entity where
  kept : ∀ scope ∈ forest.scopes, scope.encloses entity.offset = true →
    ∀ outermost, guards scope outermost = true

section Apart

variable {entity : Placed} {block : Block} {inner later : Forest} {closer : Closer}
  {closed : Span}

theorem Apart.inside (h : (branch block inner closer closed later).Apart entity) :
    inner.Apart entity where
  isEntity := h.isEntity
  apart scope hScope := h.apart scope (by simp [scopes, hScope])

theorem Apart.after (h : (branch block inner closer closed later).Apart entity) :
    later.Apart entity where
  isEntity := h.isEntity
  apart scope hScope := h.apart scope (by simp [scopes, hScope])

end Apart

/-! ## The place of an entity among the items -/

section Places

variable {before after : List Placed} {entity : Placed}

/-- An entity is before another item or behind it. -/
theorem before_or_behind {first second : List Placed} {middle : Placed}
    (h : before ++ entity :: after = first ++ middle :: second) (hNe : entity ≠ middle) :
    (∃ gap, first = before ++ entity :: gap ∧ after = gap ++ middle :: second) ∨
      ∃ gap, before = first ++ middle :: gap ∧ second = gap ++ entity :: after := by
  rcases List.append_eq_append_iff.mp h with ⟨gap, rfl, hGap⟩ | ⟨gap, rfl, hGap⟩
  · cases gap with
    | nil =>
        obtain ⟨hSame, _⟩ := List.cons_eq_cons.mp hGap
        exact absurd hSame hNe
    | cons head gap =>
        obtain ⟨rfl, rfl⟩ := List.cons_eq_cons.mp hGap
        exact .inl ⟨gap, rfl, rfl⟩
  · cases gap with
    | nil =>
        obtain ⟨hSame, _⟩ := List.cons_eq_cons.mp hGap
        exact absurd hSame.symm hNe
    | cons head gap =>
        obtain ⟨rfl, rfl⟩ := List.cons_eq_cons.mp hGap
        exact .inr ⟨gap, rfl, rfl⟩

/-- An entity is before a pair of guard lines, inside it or behind it. -/
theorem before_inside_or_behind {ahead between behind : List Placed} {scope : Scope}
    (h : before ++ entity :: after =
      ahead ++ scope.openingLine :: (between ++ scope.closingLine :: behind))
    (hEntity : entity.item.isEntity = true) :
    (∃ gap, ahead = before ++ entity :: gap ∧
        after = gap ++ scope.openingLine :: (between ++ scope.closingLine :: behind)) ∨
      (∃ gap gap', before = ahead ++ scope.openingLine :: gap ∧
        between = gap ++ entity :: gap' ∧ after = gap' ++ scope.closingLine :: behind) ∨
      ∃ gap, before = ahead ++ scope.openingLine :: (between ++ scope.closingLine :: gap) ∧
        behind = gap ++ entity :: after := by
  have hNotOpening : entity ≠ scope.openingLine := by
    rintro rfl
    cases hEntity
  have hNotClosing : entity ≠ scope.closingLine := by
    rintro rfl
    cases hEntity
  rcases before_or_behind h hNotOpening with hAhead | ⟨gap, rfl, hRest⟩
  · exact .inl hAhead
  · rcases before_or_behind hRest.symm hNotClosing with ⟨gap', rfl, rfl⟩ | ⟨gap', rfl, rfl⟩
    · exact .inr (.inl ⟨gap, gap', rfl, rfl, rfl⟩)
    · exact .inr (.inr ⟨gap', rfl, rfl⟩)

/-- An entity is in the first or in the second of two lists. -/
theorem in_first_or_second {first second : List Placed}
    (h : before ++ entity :: after = first ++ second) :
    (∃ gap, first = before ++ entity :: gap ∧ after = gap ++ second) ∨
      ∃ gap, before = first ++ gap ∧ second = gap ++ entity :: after := by
  rcases List.append_eq_append_iff.mp h with ⟨gap, rfl, hGap⟩ | ⟨gap, rfl, rfl⟩
  · cases gap with
    | nil => exact .inr ⟨[], by simp, hGap.symm⟩
    | cons head gap =>
        obtain ⟨rfl, rfl⟩ := List.cons_eq_cons.mp hGap
        exact .inl ⟨gap, rfl, rfl⟩
  · exact .inr ⟨gap, rfl, rfl⟩

/--
An entity is ahead of a pair of guard lines, inside it or behind it, and the
pairs around it are none, this one and those around it inside, or those around
it behind.
-/
theorem around_of_pair {ahead between behind : List Placed} {scope : Scope}
    {inner outer : List Guard}
    (hItems : before ++ entity :: after =
      ahead ++ scope.openingLine :: (between ++ scope.closingLine :: behind))
    (hEntity : entity.item.isEntity = true)
    (hAhead : ∀ placed ∈ ahead, placed.item.isEntity = true)
    (hBetween : Item.WellNested (between.map (·.item)))
    (hHolds : ∃ item ∈ between.map (·.item), item.isEntity = true)
    (hBehind : Item.WellNested (behind.map (·.item)))
    (hInner : ∀ gap gap', between = gap ++ entity :: gap' →
      Item.Around (gap.map (·.item)) inner (gap'.map (·.item)))
    (hOuter : ∀ gap, behind = gap ++ entity :: after →
      Item.Around (gap.map (·.item)) outer (after.map (·.item))) :
    (scope.openingLine ∈ after ∧
        Item.Around (before.map (·.item)) [] (after.map (·.item))) ∨
      (scope.openingLine ∈ before ∧ scope.closingLine ∈ after ∧
        Item.Around (before.map (·.item)) (scope.block.guard :: inner) (after.map (·.item))) ∨
      (scope.closingLine ∈ before ∧
        Item.Around (before.map (·.item)) outer (after.map (·.item))) := by
  rcases before_inside_or_behind hItems hEntity with
    ⟨gap, rfl, rfl⟩ | ⟨gap, gap', rfl, rfl, rfl⟩ | ⟨gap, rfl, rfl⟩
  · left
    refine ⟨by simp, ?_⟩
    have hBefore : Item.WellNested (before.map (·.item)) := by
      apply wellNested_of_entities
      intro placed hPlaced
      exact hAhead placed (by simp [hPlaced])
    have hGap : Item.WellNested (gap.map (·.item)) := by
      apply wellNested_of_entities
      intro placed hPlaced
      exact hAhead placed (by simp [hPlaced])
    simp only [List.map_append, List.map_cons]
    exact .here hBefore (hGap.append (.pair hBetween hHolds hBehind))
  · right
    left
    refine ⟨by simp, by simp, ?_⟩
    simp only [List.map_append, List.map_cons]
    exact .inside (wellNested_of_entities hAhead) (hInner gap gap' rfl) hBehind
  · right
    right
    refine ⟨by simp, ?_⟩
    have hPair : Item.WellNested (Item.opening scope.block.guard ::
        (between.map (·.item) ++ Item.closing scope.block.guard :: [])) :=
      .pair hBetween hHolds .nil
    have hFront := (hOuter gap rfl).prepend ((wellNested_of_entities hAhead).append hPair)
    simp only [List.append_assoc, List.cons_append] at hFront
    simp only [List.map_append, List.map_cons]
    exact hFront

end Places

/-! ## The pairs around an entity -/

/-- A scope with guard lines around an entity has its opening line before the entity. -/
theorem guarding_eq_nil_of_le {forest : Forest} {entity : Placed} {items : List Placed}
    {outermost : Bool}
    (hFilter : items.filter (!·.item.isEntity) = forest.guardLines guards outermost)
    (h : ∀ placed ∈ items, entity.offset ≤ placed.offset) :
    forest.guarding guards entity.offset outermost = [] := by
  apply List.eq_nil_iff_forall_not_mem.mpr
  intro scope hScope
  have hLine : scope.openingLine ∈ items := by
    have hMem := (mem_guardLines hScope).1
    rw [← hFilter] at hMem
    exact (List.mem_filter.mp hMem).1
  have hLess : entity.offset ≤ scope.block.opened.start := h _ hLine
  have hAround := (List.mem_filter.mp ((guarding_sublist _ _ _).subset hScope)).2
  simp only [Scope.encloses_iff] at hAround
  omega

/-- A scope with guard lines around an entity has its closing line behind the entity. -/
theorem Apart.guarding_eq_nil_of_ge {forest : Forest} {entity : Placed} {items : List Placed}
    {outermost : Bool} (hApart : forest.Apart entity)
    (hFilter : items.filter (!·.item.isEntity) = forest.guardLines guards outermost)
    (h : ∀ placed ∈ items, placed.offset ≤ entity.offset) :
    forest.guarding guards entity.offset outermost = [] := by
  apply List.eq_nil_iff_forall_not_mem.mpr
  intro scope hScope
  have hLine : scope.closingLine ∈ items := by
    have hMem := (mem_guardLines hScope).2
    rw [← hFilter] at hMem
    exact (List.mem_filter.mp hMem).1
  have hLess : scope.closedAt ≤ entity.offset := h _ hLine
  obtain ⟨hMem, hAround⟩ := List.mem_filter.mp ((guarding_sublist _ _ _).subset hScope)
  have hNotClosed := (hApart.apart scope hMem).2
  simp only [Scope.encloses_iff] at hAround
  omega

/--
The pairs of guard lines around an entity are those of the scopes around its
offset that have guard lines. As in `wellNested_of_filter` the items are part of
an ascending list.
-/
theorem around_of_filter {all : List Placed} (hAll : Ascending all) {forest : Forest}
    {low high : Nat} (hWithin : forest.Within low high) (hFilled : forest.Filled guards all)
    {entity : Placed} (hApart : forest.Apart entity) {outermost : Bool}
    {before after : List Placed} (hPart : before ++ entity :: after <:+: all)
    (hFilter : (before ++ entity :: after).filter (!·.item.isEntity) =
      forest.guardLines guards outermost) :
    Item.Around (before.map (·.item))
      ((forest.guarding guards entity.offset outermost).map (·.block.guard))
      (after.map (·.item)) := by
  induction forest generalizing low high outermost before after with
  | nil =>
      have hAlone : ∀ placed ∈ before ++ entity :: after, placed.item.isEntity = true := by
        intro placed hPlaced
        simpa using List.filter_eq_nil_iff.mp hFilter placed hPlaced
      exact .here (wellNested_of_entities fun placed hPlaced => hAlone placed (by simp [hPlaced]))
        (wellNested_of_entities fun placed hPlaced => hAlone placed (by simp [hPlaced]))
  | branch block inside closer closed later ihInside ihLater =>
      have hParts := hWithin
      obtain ⟨_, hOpened, _, _, _, hInside, hLater⟩ := hParts
      have hSorted := hAll.sublist hPart.sublist
      have hBefore : ∀ placed ∈ before, placed.offset ≤ entity.offset := fun placed hPlaced =>
        hSorted.le_of_append rfl hPlaced List.mem_cons_self
      have hAfter : ∀ placed ∈ after, entity.offset ≤ placed.offset := fun placed hPlaced =>
        hSorted.le_of_append (List.append_cons _ _ _) (by simp) hPlaced
      obtain ⟨hNotOpened, hNotClosed⟩ := hApart.apart ⟨block, closed.start⟩ (by simp [scopes])
      simp only at hNotOpened hNotClosed
      simp only [guardLines] at hFilter
      by_cases hGuards : guards ⟨block, closed.start⟩ outermost = true
      · rw [if_pos hGuards] at hFilter
        obtain ⟨ahead, between, behind, hItems, hAhead, hBetween, hBehind⟩ :=
          exists_split_of_filter hFilter
        have hWhole := hPart
        rw [hItems] at hWhole
        have hHolds := exists_entity_between hAll (infix_pair hWhole) hOpened
          (hFilled ⟨block, closed.start⟩ (by simp [scopes]) outermost hGuards)
        have hBetweenNested :=
          wellNested_of_filter hAll hInside hFilled.inside (infix_between hWhole) hBetween
        have hBehindNested :=
          wellNested_of_filter hAll hLater hFilled.after (infix_behind hWhole) hBehind
        have hInner : ∀ gap gap', between = gap ++ entity :: gap' →
            Item.Around (gap.map (·.item))
              ((inside.guarding guards entity.offset false).map (·.block.guard))
              (gap'.map (·.item)) := by
          rintro gap gap' rfl
          exact ihInside hInside hFilled.inside hApart.inside (infix_between hWhole) hBetween
        have hOuter : ∀ gap, behind = gap ++ entity :: after →
            Item.Around (gap.map (·.item))
              ((later.guarding guards entity.offset outermost).map (·.block.guard))
              (after.map (·.item)) := by
          rintro gap rfl
          exact ihLater hLater hFilled.after hApart.after (infix_behind hWhole) hBehind
        -- The order of the offsets tells where the branch is, and the lists where its lines are.
        rcases around_of_pair hItems hApart.isEntity hAhead hBetweenNested hHolds hBehindNested
          hInner hOuter with
          ⟨hOpening, hAround⟩ | ⟨hOpening, hClosing, hAround⟩ | ⟨hClosing, hAround⟩
        · have hLess : entity.offset ≤ block.opened.start := hAfter _ hOpening
          rw [guarding_eq_nil (hWithin.enclosing_of_ahead hLess)]
          exact hAround
        · have hMore : block.opened.start ≤ entity.offset := hBefore _ hOpening
          have hLess : entity.offset ≤ closed.start := hAfter _ hClosing
          have hOwn : (guards ⟨block, closed.start⟩ outermost &&
              Scope.encloses entity.offset ⟨block, closed.start⟩) = true := by
            rw [hGuards, Bool.true_and]
            exact Scope.encloses_iff.mpr ⟨by simp only; omega, hLess⟩
          have hNone : later.enclosing entity.offset = [] := hLater.enclosing_eq_nil (.inl hLess)
          rw [guarding, if_pos hOwn, guarding_eq_nil hNone, List.append_nil]
          exact hAround
        · have hMore : closed.start ≤ entity.offset := hBefore _ hClosing
          have hOwn : ¬ (guards ⟨block, closed.start⟩ outermost &&
              Scope.encloses entity.offset ⟨block, closed.start⟩) = true := by
            rw [hGuards, Bool.true_and, Scope.encloses_iff]
            simp only
            omega
          have hNone : inside.enclosing entity.offset = [] :=
            hInside.enclosing_eq_nil (.inr hMore)
          rw [guarding, if_neg hOwn, guarding_eq_nil hNone]
          exact hAround
      · rw [if_neg hGuards] at hFilter
        obtain ⟨first, second, hItems, hFirst, hSecond⟩ := List.filter_eq_append_iff.mp hFilter
        have hWhole := hPart
        rw [hItems] at hWhole
        have hFirstPart : first <:+: all := (List.prefix_append _ _).isInfix.trans hWhole
        have hSecondPart : second <:+: all := (List.suffix_append _ _).isInfix.trans hWhole
        rw [guarding, if_neg (by simp [hGuards]), List.nil_append, List.map_append]
        rcases in_first_or_second hItems with ⟨gap, rfl, rfl⟩ | ⟨gap, rfl, rfl⟩
        · have hInner := ihInside hInside hFilled.inside hApart.inside hFirstPart hFirst
          have hSecondNested := wellNested_of_filter hAll hLater hFilled.after hSecondPart hSecond
          have hNone := guarding_eq_nil_of_le hSecond fun placed hPlaced =>
            hAfter placed (by simp [hPlaced])
          rw [hNone, List.map_nil, List.append_nil, List.map_append]
          exact hInner.append hSecondNested
        · have hOuter := ihLater hLater hFilled.after hApart.after hSecondPart hSecond
          have hFirstNested := wellNested_of_filter hAll hInside hFilled.inside hFirstPart hFirst
          have hNone := hApart.inside.guarding_eq_nil_of_ge hFirst fun placed hPlaced =>
            hBefore placed (by simp [hPlaced])
          rw [hNone, List.map_nil, List.nil_append, List.map_append]
          exact hOuter.prepend hFirstNested

end Forest

namespace Scan

variable {setup : Setup}

/--
The pairs around an entity that a scan hands out are those of the scopes around
it that have guard lines.
-/
theorem around_guarding_parts (hInside : setup.FindsInside) {forest : Forest} {high : Nat}
    (hWithin : forest.Within 0 high) {before after : List Placed} {entity : Placed}
    (hApart : forest.Apart entity)
    (hItems : ordered ((forest.parts setup.source 0 none).flatMap setup.itemsOf) =
      before ++ entity :: after) :
    Item.Around (before.map (·.item))
      ((forest.guarding setup.guards entity.offset true).map (·.block.guard))
      (after.map (·.item)) := by
  have hFilled := filled_ordered_parts hInside forest setup.source
  have hFilter := filter_guard_ordered_parts hInside hWithin setup.source
  have hAll := ascending_ordered ((forest.parts setup.source 0 none).flatMap setup.itemsOf)
  rw [hItems] at hFilled hFilter hAll
  exact Forest.around_of_filter hAll hWithin hFilled hApart (List.infix_refl _) hFilter

/-- They are those of all scopes around it, if these have guard lines. -/
theorem around_ordered_parts (hInside : setup.FindsInside) {forest : Forest} {high : Nat}
    (hWithin : forest.Within 0 high) {before after : List Placed} {entity : Placed}
    (hMeets : forest.Meets setup.guards entity)
    (hItems : ordered ((forest.parts setup.source 0 none).flatMap setup.itemsOf) =
      before ++ entity :: after) :
    Item.Around (before.map (·.item)) ((forest.enclosing entity.offset).map (·.block.guard))
      (after.map (·.item)) := by
  rw [← Forest.guarding_eq_enclosing hMeets.kept true]
  exact around_guarding_parts hInside hWithin hMeets.toApart hItems

end Scan

end ValueNames
