import ValueNames.Proofs.Scan.Parts
import ValueNames.Proofs.Scan.Around

/-!
# Scans without the outermost guards

A scan may leave out the guard lines of outermost blocks. This is decided block by
block while the source is read, long before the items are in order. In the ordered
list the lines left out are just those at nesting depth zero: where something is
found in a branch, something is found in the branches around it, so that a branch
has guard lines only inside the guard lines of its outermost block.

## Main results

* `Forest.withoutOutermost_guardLines` — without those at depth zero, the guard lines of
  a forest are those of the branches inside others.
* `Scan.ordered_unguarded` — a scan that leaves out outermost guards hands out what
  the other one does, without the guard lines at depth zero.
-/

namespace ValueNames

open Scan Placed

/-! ## Guard lines at depth zero -/

theorem Item.depthAfter_append (depth : Nat) (front back : List Item) :
    depthAfter depth (front ++ back) = depthAfter (depthAfter depth front) back :=
  List.foldl_append

namespace Placed

/--
Items without the guard lines at nesting depth zero, which no other pair of guard
lines is around. So many pairs as `depth` are open before the items.
-/
def withoutOutermost (depth : Nat) : List Placed → List Placed
  | [] => []
  | placed :: rest =>
      let (own, next) := placed.item.depths depth
      if placed.item.isEntity = false ∧ own = 0 then withoutOutermost next rest
      else placed :: withoutOutermost next rest

theorem withoutOutermost_sublist (depth : Nat) (items : List Placed) :
    (withoutOutermost depth items).Sublist items := by
  induction items generalizing depth with
  | nil => exact List.Sublist.refl _
  | cons placed rest ih =>
      simp only [withoutOutermost]
      split
      · exact (ih _).cons placed
      · exact (ih _).cons_cons placed

theorem withoutOutermost_append (depth : Nat) (front back : List Placed) :
    withoutOutermost depth (front ++ back) =
      withoutOutermost depth front ++
        withoutOutermost (Item.depthAfter depth (front.map (·.item))) back := by
  induction front generalizing depth with
  | nil => rfl
  | cons placed front ih =>
      show withoutOutermost depth (placed :: (front ++ back)) = _
      simp only [withoutOutermost, ih]
      split
      · rfl
      · rfl

theorem filter_entity_withoutOutermost (depth : Nat) (items : List Placed) :
    (withoutOutermost depth items).filter (·.item.isEntity) =
      items.filter (·.item.isEntity) := by
  induction items generalizing depth with
  | nil => rfl
  | cons placed rest ih =>
      simp only [withoutOutermost]
      split
      · rename_i hOutermost
        rw [ih, List.filter_cons_of_neg (by simp [hOutermost.1])]
      · rw [List.filter_cons, List.filter_cons, ih]

/-- Entities have no influence on which guard lines are left. -/
theorem filter_guard_withoutOutermost (depth : Nat) (items : List Placed) :
    (withoutOutermost depth items).filter (!·.item.isEntity) =
      withoutOutermost depth (items.filter (!·.item.isEntity)) := by
  induction items generalizing depth with
  | nil => rfl
  | cons placed rest ih =>
      obtain ⟨offset, item⟩ := placed
      cases item with
      | entity found =>
          show (⟨offset, .entity found⟩ :: withoutOutermost depth rest).filter _ = _
          rw [List.filter_cons_of_neg (by simp [Item.isEntity]), ih,
            List.filter_cons_of_neg (by simp [Item.isEntity])]
      | guard line =>
          rw [List.filter_cons_of_pos rfl]
          simp only [withoutOutermost]
          split
          · exact ih _
          · rw [List.filter_cons_of_pos rfl, ih]

section Lines

variable (depth : Nat) (scope : Scope) (rest : List Placed)

theorem depthAfter_openingLine (behind : List Item) :
    Item.depthAfter depth (scope.openingLine.item :: behind) =
      Item.depthAfter (depth + 1) behind :=
  rfl

theorem withoutOutermost_openingLine :
    withoutOutermost (depth + 1) (scope.openingLine :: rest) =
      scope.openingLine :: withoutOutermost (depth + 2) rest := by
  rw [withoutOutermost]
  exact if_neg (by simp [Scope.openingLine])

theorem withoutOutermost_closingLine :
    withoutOutermost (depth + 2) (scope.closingLine :: rest) =
      scope.closingLine :: withoutOutermost (depth + 1) rest := by
  rw [withoutOutermost]
  exact if_neg (by simp [Scope.closingLine])

end Lines

end Placed

/-! ## The guard lines of a forest -/

namespace Forest

variable {guards : Scope → Bool → Bool}

/-- Behind the guard lines of a forest as many pairs are open as before them. -/
theorem depthAfter_guardLines (forest : Forest) (outermost : Bool) (depth : Nat) :
    Item.depthAfter depth ((forest.guardLines guards outermost).map (·.item)) = depth := by
  induction forest generalizing outermost depth with
  | nil => rfl
  | branch block inside closer closed after ihInside ihAfter =>
      simp only [guardLines]
      split
      · rw [List.map_append, Item.depthAfter_append, List.map_cons,
          depthAfter_openingLine, List.map_append, Item.depthAfter_append, ihInside]
        show Item.depthAfter depth _ = depth
        exact ihAfter outermost depth
      · rw [List.map_append, Item.depthAfter_append, ihInside, ihAfter]

/-- Inside a pair no guard line is at depth zero. -/
theorem withoutOutermost_guardLines_inside (forest : Forest) (outermost : Bool) (depth : Nat) :
    withoutOutermost (depth + 1) (forest.guardLines guards outermost) =
      forest.guardLines guards outermost := by
  induction forest generalizing outermost depth with
  | nil => rfl
  | branch block inside closer closed after ihInside ihAfter =>
      have hInside := @depthAfter_guardLines guards inside false
      simp only [guardLines]
      split
      · rw [List.cons_append, withoutOutermost_openingLine, List.append_assoc,
          withoutOutermost_append, ihInside, hInside, List.singleton_append,
          withoutOutermost_closingLine, ihAfter]
      · rw [withoutOutermost_append, ihInside, hInside, ihAfter]

theorem guardLines_congr {guards' : Scope → Bool → Bool} {forest : Forest} {outermost : Bool}
    (h : ∀ scope, guards scope false = guards' scope false)
    (hLevel : outermost = false) :
    forest.guardLines guards outermost = forest.guardLines guards' outermost := by
  induction forest generalizing outermost with
  | nil => rfl
  | branch block inside closer closed after ihInside ihAfter =>
      subst hLevel
      simp only [guardLines, h, ihInside rfl, ihAfter rfl]

theorem guardLines_eq_nil {forest : Forest} {outermost : Bool}
    (h : ∀ scope ∈ forest.scopes, ∀ outermost, guards scope outermost = false) :
    forest.guardLines guards outermost = [] := by
  induction forest generalizing outermost with
  | nil => rfl
  | branch block inside closer closed after ihInside ihAfter =>
      have hOwn := h ⟨block, closed.start⟩ (by simp [scopes]) outermost
      have hInside : inside.guardLines guards false = [] :=
        ihInside fun scope hScope => h scope (by simp [scopes, hScope])
      have hAfter : after.guardLines guards outermost = [] :=
        ihAfter fun scope hScope => h scope (by simp [scopes, hScope])
      simp [guardLines, hOwn, hInside, hAfter]

/--
Without those at depth zero, the guard lines of a forest are those of the branches
that stand inside others. A branch without guard lines must not have branches with
guard lines inside it.
-/
theorem withoutOutermost_guardLines {filled : Scope → Bool} {forest : Forest} {low high : Nat}
    (hWithin : forest.Within low high)
    (hNested : ∀ outer ∈ forest.scopes, ∀ inner ∈ forest.scopes,
      inner.region.Inside outer.region → filled inner = true → filled outer = true) :
    withoutOutermost 0 (forest.guardLines (fun scope _ => filled scope) true) =
      forest.guardLines (fun scope outermost => filled scope && !outermost) true := by
  induction forest generalizing low high with
  | nil => rfl
  | branch block inside closer closed after _ ihAfter =>
      obtain ⟨_, hOpened, _, _, _, hInside, hAfter⟩ := hWithin
      have hLater := ihAfter hAfter fun outer hOuter inner hInner =>
        hNested outer (by simp [scopes, hOuter]) inner (by simp [scopes, hInner])
      have hInner : inside.guardLines (fun scope outermost => filled scope && !outermost) false =
          inside.guardLines (fun scope _ => filled scope) false :=
        guardLines_congr (by simp) rfl
      simp only [guardLines, Bool.not_true, Bool.and_false, Bool.false_eq_true, if_false, hInner]
      by_cases hFilled : filled ⟨block, closed.start⟩ = true
      · have hOpening : ∀ rest : List Placed, withoutOutermost 0
            (Scope.openingLine ⟨block, closed.start⟩ :: rest) = withoutOutermost 1 rest :=
          fun _ => rfl
        have hClosing : ∀ rest : List Placed, withoutOutermost 1
            (Scope.closingLine ⟨block, closed.start⟩ :: rest) = withoutOutermost 0 rest :=
          fun _ => rfl
        rw [if_pos hFilled, List.cons_append, hOpening, List.append_assoc,
          withoutOutermost_append, withoutOutermost_guardLines_inside, depthAfter_guardLines,
          List.singleton_append, hClosing, hLater]
      · -- Then nothing inside the branch has guard lines either.
        have hNone : inside.guardLines (fun scope _ => filled scope) false = [] := by
          apply guardLines_eq_nil
          intro scope hScope _
          have hPlace := hInside.mem_scopes hScope
          have hIn : scope.region.Inside (Scope.region ⟨block, closed.start⟩) := by
            simp only [Span.Inside, Scope.region] at hPlace ⊢
            omega
          rw [← Bool.not_eq_true]
          intro hOwn
          exact hFilled (hNested _ (by simp [scopes]) scope (by simp [scopes, hScope]) hIn hOwn)
        rw [if_neg hFilled, hNone, List.nil_append, hLater, List.nil_append]

/-- A guard line of a forest opens or closes the guard of a scope. -/
theorem eq_line_of_mem_guardLines {forest : Forest} {outermost : Bool} {line : Placed}
    (h : line ∈ forest.guardLines guards outermost) :
    ∃ scope ∈ forest.scopes, line = scope.openingLine ∨ line = scope.closingLine := by
  induction forest generalizing outermost with
  | nil => simp [guardLines] at h
  | branch block inside closer closed after ihInside ihAfter =>
      have hInner : line ∈ inside.guardLines guards false →
          ∃ scope ∈ (branch block inside closer closed after).scopes,
            line = scope.openingLine ∨ line = scope.closingLine := by
        intro hMem
        obtain ⟨scope, hScope, hLine⟩ := ihInside hMem
        exact ⟨scope, by simp [scopes, hScope], hLine⟩
      rcases List.mem_append.mp h with hOwn | hLater
      · split at hOwn
        · simp only [List.mem_cons, List.mem_append, List.not_mem_nil, or_false] at hOwn
          rcases hOwn with hOpens | hMem | hCloses
          · exact ⟨⟨block, closed.start⟩, by simp [scopes], .inl hOpens⟩
          · exact hInner hMem
          · exact ⟨⟨block, closed.start⟩, by simp [scopes], .inr hCloses⟩
        · exact hInner hOwn
      · obtain ⟨scope, hScope, hLine⟩ := ihAfter hLater
        exact ⟨scope, by simp [scopes, hScope], hLine⟩

/-- A guard line of a forest stands where a scope begins or ends. -/
theorem exists_scope_of_mem_guardLines {forest : Forest} {outermost : Bool} {line : Placed}
    (h : line ∈ forest.guardLines guards outermost) :
    ∃ scope ∈ forest.scopes,
      line.offset = scope.block.opened.start ∨ line.offset = scope.closedAt := by
  obtain ⟨scope, hScope, hLine⟩ := eq_line_of_mem_guardLines h
  rcases hLine with rfl | rfl
  · exact ⟨scope, hScope, .inl rfl⟩
  · exact ⟨scope, hScope, .inr rfl⟩

end Forest

/-! ## Leaving out the outermost guards -/

namespace Scan

/-- The scan that leaves out the guards of outermost blocks. -/
def Setup.unguarded (setup : Setup) : Setup := { setup with unguardedOutermost := true }

variable {setup : Setup}

/-- The entities among the items of a part are those seen in it, with or without guards. -/
theorem filter_entity_itemsOf (hInside : setup.FindsInside) (part : Part) :
    (setup.itemsOf part).filter (·.item.isEntity) = setup.seen part.region := by
  have hSeen : (setup.seen part.region).filter (·.item.isEntity) = setup.seen part.region :=
    List.filter_eq_self.mpr fun placed hPlaced => (Setup.mem_seen hInside hPlaced).1
  cases part with
  | topLevel region => exact hSeen
  | branch scope outermost =>
      simp only [Setup.itemsOf]
      split
      · exact hSeen
      · rw [List.cons_append, List.filter_cons_of_neg (by simp [Scope.openingLine, Item.isEntity]),
          List.filter_append, List.filter_cons_of_neg (by simp [Scope.closingLine, Item.isEntity]),
          List.filter_nil, List.append_nil]
        exact hSeen

theorem filter_entity_flatMap_itemsOf (hInside : setup.FindsInside) (parts : List Part) :
    (parts.flatMap setup.itemsOf).filter (·.item.isEntity) =
      parts.flatMap fun part => setup.seen part.region := by
  rw [List.filter_flatMap]
  simp only [filter_entity_itemsOf hInside]

theorem map_forget {α β : Type} (result : Except Fault α) (f : α → β) :
    (result.map f).map (fun _ => ()) = result.map fun _ => () := by
  cases result with
  | error fault => rfl
  | ok x => rfl

/-- Of two computations that fail alike, one gives what the other does, changed by `f`. -/
theorem eq_map_of_forget {α β : Type} {first : Except Fault α} {second : Except Fault β}
    {f : β → α} (h : first.map (fun _ => ()) = second.map fun _ => ())
    (hOk : ∀ x y, first = .ok x → second = .ok y → x = f y) : first = second.map f := by
  cases first with
  | error fault =>
      cases second with
      | error fault' =>
          cases h
          rfl
      | ok y => cases h
  | ok x =>
      cases second with
      | error fault => cases h
      | ok y => exact congrArg Except.ok (hOk x y rfl rfl)

/-- Two computations fail alike if their steps do. -/
theorem bind_forget_congr {α β : Type} {first second : Except Fault α}
    {f g : α → Except Fault β}
    (h : first.map (fun _ => ()) = second.map fun _ => ())
    (hNext : ∀ x y, (f x).map (fun _ => ()) = (g y).map fun _ => ()) :
    (first.bind f).map (fun _ => ()) = (second.bind g).map fun _ => () := by
  cases first with
  | error fault =>
      cases second with
      | error fault' =>
          cases h
          rfl
      | ok y => cases h
  | ok x =>
      cases second with
      | error fault => cases h
      | ok y => exact hNext x y

/-- Whether guards are left out makes no difference to which calls fail. -/
theorem gather_unguarded (parts : List Part) :
    (setup.unguarded.gather parts).map (fun _ => ()) = (setup.gather parts).map fun _ => () := by
  induction parts with
  | nil => rfl
  | cons part rest ih =>
      refine bind_forget_congr ?_ fun found found' => ?_
      · cases part with
        | topLevel region => rfl
        | branch scope outermost =>
            show ((setup.look scope.region).map _).map _ = ((setup.look scope.region).map _).map _
            rw [map_forget, map_forget]
      · rw [map_forget, map_forget]
        exact ih

/-- Whether guards are left out makes no difference to whether and why a scan fails. -/
theorem collect_unguarded_forget (hInside : setup.FindsInside) :
    (Cursor.start setup.unguarded).collect.map (fun _ => ()) =
      (Cursor.start setup).collect.map fun _ => () := by
  have hOther : setup.unguarded.FindsInside := hInside
  rw [collect_eq_gather hInside, collect_eq_gather hOther]
  refine bind_forget_congr (gather_unguarded _) fun found found' => ?_
  have hSource : setup.unguarded.source = setup.source := rfl
  rw [hSource]
  cases State.initial.outline.fault? setup.source (Conditional.directiveLines setup.source) with
  | none => rfl
  | some fault => rfl

/--
A scan that leaves out outermost guards hands out what the other one does, without
the guard lines at depth zero. Entities stand apart from the lines of the scopes,
and where something is seen in a scope, something is seen in the scopes around it.
-/
theorem ordered_unguarded (hInside : setup.FindsInside)
    (hGuarded : setup.unguardedOutermost = false) {forest : Forest} {high : Nat}
    (hWithin : forest.Within 0 high)
    (hApart : ∀ part ∈ forest.parts setup.source 0 none,
      ∀ placed ∈ setup.seen part.region, forest.Apart placed)
    (hNested : ∀ outer ∈ forest.scopes, ∀ inner ∈ forest.scopes,
      inner.region.Inside outer.region → setup.seen inner.region ≠ [] →
        setup.seen outer.region ≠ []) :
    ordered ((forest.parts setup.source 0 none).flatMap setup.unguarded.itemsOf) =
      withoutOutermost 0
        (ordered ((forest.parts setup.source 0 none).flatMap setup.itemsOf)) := by
  have hOther : setup.unguarded.FindsInside := hInside
  have hLines := filter_guard_ordered_parts hInside hWithin setup.source
  have hOtherLines := filter_guard_ordered_parts hOther hWithin setup.source
  have hGuards : setup.guards = fun scope _ => decide (setup.seen scope.region ≠ []) := by
    funext scope outermost
    simp [Setup.guards, hGuarded]
  have hOtherGuards : setup.unguarded.guards =
      fun scope outermost => decide (setup.seen scope.region ≠ []) && !outermost := by
    funext scope outermost
    show (decide (setup.seen scope.region ≠ []) && !(true && outermost)) = _
    rw [Bool.true_and]
  refine (eq_of_filter_isEntity_eq ?_ (ascending_ordered _) ?_ ?_ ?_).symm
  · exact (ascending_ordered _).sublist (withoutOutermost_sublist 0 _)
  · rw [filter_entity_withoutOutermost, filter_entity_ordered, filter_entity_ordered,
      filter_entity_flatMap_itemsOf hInside, filter_entity_flatMap_itemsOf hOther]
    rfl
  · rw [filter_guard_withoutOutermost, hLines, hOtherLines, hGuards, hOtherGuards]
    refine Forest.withoutOutermost_guardLines hWithin ?_
    intro outer hOuter inner hInner hIn hSome
    simp only [decide_eq_true_eq] at hSome ⊢
    exact hNested outer hOuter inner hInner hIn hSome
  · -- An entity was seen in a part, and a guard line is one of the forest.
    intro entity hEntity hKind line hLine hLineKind hSame
    have hEntityMem := (withoutOutermost_sublist 0 _).subset hEntity
    have hLineMem := (withoutOutermost_sublist 0 _).subset hLine
    obtain ⟨part, hPart, hOwn⟩ := List.mem_flatMap.mp (mem_of_mem_ordered hEntityMem)
    have hSeen := Setup.mem_seen_of_mem_itemsOf hOwn hKind
    have hGuardLine : line ∈ forest.guardLines setup.guards true := by
      rw [← hLines]
      exact List.mem_filter.mpr ⟨hLineMem, by simp [hLineKind]⟩
    obtain ⟨scope, hScope, hPlace⟩ := Forest.exists_scope_of_mem_guardLines hGuardLine
    obtain ⟨hNotOpened, hNotClosed⟩ := (hApart part hPart entity hSeen).apart scope hScope
    omega

end Scan

end ValueNames
