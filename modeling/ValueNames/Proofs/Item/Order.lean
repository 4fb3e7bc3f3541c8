import ValueNames.Item

/-!
# The order of items

Ordering is a stable sort by offset, after which the first entity of every
offset stays. A list sorted by offset is known from what it holds at each
single offset, and this is how all facts about the order are proved here.

## Main results

* `eq_of_filter_offset_eq` — two sorted lists with the same items at every
  offset, in the same order, are equal.
* `ordered_append` — a list that ends before another one begins can be
  ordered on its own.
* `ordered_ordered` — ordering what is ordered changes nothing.
* `eq_of_filter_isEntity_eq` — sorted items are known from their entities and guard
  lines, if these stand apart.
* `mem_ordered_iff` — of the entities at one offset the first stays.
* `exists_entity_ordered` — no offset loses its last entity.
* `filter_isEntityAt_ordered` — an offset with an entity has exactly one after ordering.
* `before_eq_of_offset_eq` — an entity's place among ordered items is told by its offset.
-/

namespace ValueNames.Placed

/-- Items whose offsets never decrease. -/
def Ascending (items : List Placed) : Prop := items.Pairwise fun a b => a.offset ≤ b.offset

/-- What comes first in an ascending list does not stand behind what comes later. -/
theorem Ascending.le_of_append {all front back : List Placed} (h : Ascending all)
    (hSplit : all = front ++ back) {a b : Placed} (ha : a ∈ front) (hb : b ∈ back) :
    a.offset ≤ b.offset := by
  subst hSplit
  exact (List.pairwise_append.mp h).2.2 a ha b hb

theorem Ascending.sublist {xs ys : List Placed} (h : Ascending ys) (hSublist : xs.Sublist ys) :
    Ascending xs :=
  List.Pairwise.sublist hSublist h

/-- Whether an item stands at an offset. -/
def standsAt (offset : Nat) (placed : Placed) : Bool := placed.offset = offset

@[simp] theorem standsAt_iff {offset : Nat} {placed : Placed} :
    placed.standsAt offset = true ↔ placed.offset = offset := by
  simp [standsAt]

/-! ## Sorted lists -/

/-- A sorted list is known from what it holds at each offset. -/
theorem eq_of_filter_offset_eq {xs ys : List Placed} (hx : Ascending xs) (hy : Ascending ys)
    (h : ∀ offset, xs.filter (standsAt offset) = ys.filter (standsAt offset)) : xs = ys := by
  induction xs generalizing ys with
  | nil =>
      cases ys with
      | nil => rfl
      | cons y ys =>
          have hHere := h y.offset
          simp at hHere
  | cons x xs ih =>
      cases ys with
      | nil =>
          have hHere := h x.offset
          simp at hHere
      | cons y ys =>
          -- Each head occurs in the other list, so neither offset is below the other.
          have hxMem : x ∈ (y :: ys).filter (standsAt x.offset) := by
            rw [← h x.offset]
            simp
          have hyMem : y ∈ (x :: xs).filter (standsAt y.offset) := by
            rw [h y.offset]
            simp
          have hyx : y.offset ≤ x.offset := by
            rcases List.mem_cons.mp (List.mem_filter.mp hxMem).1 with rfl | hMem
            · exact Nat.le_refl _
            · exact (List.pairwise_cons.mp hy).1 x hMem
          have hxy : x.offset ≤ y.offset := by
            rcases List.mem_cons.mp (List.mem_filter.mp hyMem).1 with rfl | hMem
            · exact Nat.le_refl _
            · exact (List.pairwise_cons.mp hx).1 y hMem
          have hOffset : y.offset = x.offset := Nat.le_antisymm hyx hxy
          have hHere := h x.offset
          simp only [List.filter_cons, standsAt_iff, hOffset, if_true, List.cons.injEq] at hHere
          obtain ⟨rfl, _⟩ := hHere
          have hTail : xs = ys := by
            apply ih (List.pairwise_cons.mp hx).2 (List.pairwise_cons.mp hy).2
            intro offset
            have hCons := h offset
            by_cases hAt : x.offset = offset
            · simpa [hAt] using hCons
            · simpa [hAt] using hCons
          rw [hTail]

theorem offset_le_trans (a b c : Placed) (hFirst : decide (a.offset ≤ b.offset) = true)
    (hSecond : decide (b.offset ≤ c.offset) = true) : decide (a.offset ≤ c.offset) = true := by
  rw [decide_eq_true_eq] at *
  exact Nat.le_trans hFirst hSecond

theorem offset_le_total (a b : Placed) :
    (decide (a.offset ≤ b.offset) || decide (b.offset ≤ a.offset)) = true := by
  rw [Bool.or_eq_true, decide_eq_true_eq, decide_eq_true_eq]
  exact Nat.le_total a.offset b.offset

theorem ascending_sorted (items : List Placed) : Ascending (sorted items) := by
  have hSorted := List.pairwise_mergeSort offset_le_trans offset_le_total items
  simpa [Ascending, sorted] using hSorted

/-- Sorting keeps the order of the items at one offset. -/
theorem filter_offset_sorted (items : List Placed) (offset : Nat) :
    (sorted items).filter (standsAt offset) = items.filter (standsAt offset) := by
  have hSame : (items.filter (standsAt offset)).Pairwise
      (fun a b => decide (a.offset ≤ b.offset) = true) := by
    refine List.pairwise_of_forall_mem_list ?_
    intro a ha b hb
    have haAt := standsAt_iff.mp (List.mem_filter.mp ha).2
    have hbAt := standsAt_iff.mp (List.mem_filter.mp hb).2
    simp only [decide_eq_true_eq]
    omega
  have hSublist : (items.filter (standsAt offset)).Sublist (sorted items) :=
    List.sublist_mergeSort offset_le_trans offset_le_total hSame List.filter_sublist
  have hFiltered := hSublist.filter (standsAt offset)
  rw [List.filter_filter] at hFiltered
  simp only [Bool.and_self] at hFiltered
  have hLength := ((List.mergeSort_perm items
    (fun a b => decide (a.offset ≤ b.offset))).filter (standsAt offset)).length_eq
  exact (hFiltered.eq_of_length hLength.symm).symm

/-- The sorted list is the only ascending one that agrees with the list at every offset. -/
theorem sorted_eq_of_filter {items target : List Placed} (hTarget : Ascending target)
    (h : ∀ offset, target.filter (standsAt offset) = items.filter (standsAt offset)) :
    sorted items = target := by
  apply eq_of_filter_offset_eq (ascending_sorted items) hTarget
  intro offset
  rw [filter_offset_sorted, h offset]

/-- Only the offsets that occur have to be compared. -/
theorem sorted_eq_of_forall_mem {items target : List Placed} (hTarget : Ascending target)
    (h : ∀ placed ∈ target ++ items,
      target.filter (standsAt placed.offset) = items.filter (standsAt placed.offset)) :
    sorted items = target := by
  refine sorted_eq_of_filter hTarget fun offset => ?_
  by_cases hSome : ∃ placed ∈ target ++ items, placed.offset = offset
  · obtain ⟨placed, hPlaced, rfl⟩ := hSome
    exact h placed hPlaced
  · have hNone : (target ++ items).filter (standsAt offset) = [] := by
      apply List.filter_eq_nil_iff.mpr
      intro placed hPlaced hAt
      exact hSome ⟨placed, hPlaced, standsAt_iff.mp hAt⟩
    rw [List.filter_append, List.append_eq_nil_iff] at hNone
    rw [hNone.1, hNone.2]

theorem sorted_of_ascending {items : List Placed} (h : Ascending items) : sorted items = items :=
  sorted_eq_of_filter h fun _ => rfl

theorem mem_sorted {items : List Placed} {placed : Placed} :
    placed ∈ sorted items ↔ placed ∈ items :=
  List.mem_mergeSort

theorem sorted_append {xs ys : List Placed} (h : ∀ x ∈ xs, ∀ y ∈ ys, x.offset < y.offset) :
    sorted (xs ++ ys) = sorted xs ++ sorted ys := by
  apply sorted_eq_of_filter
  · refine List.pairwise_append.mpr ⟨ascending_sorted xs, ascending_sorted ys, ?_⟩
    intro x hx y hy
    exact Nat.le_of_lt (h x (mem_sorted.mp hx) y (mem_sorted.mp hy))
  · intro offset
    simp [filter_offset_sorted]

/-- A choice of items can be made before or after sorting. -/
theorem filter_sorted (keep : Placed → Bool) (items : List Placed) :
    (sorted items).filter keep = sorted (items.filter keep) := by
  refine (sorted_eq_of_filter ((ascending_sorted items).filter _) ?_).symm
  intro offset
  have hComm : ∀ list : List Placed,
      (list.filter keep).filter (standsAt offset) =
        (list.filter (standsAt offset)).filter keep := by
    intro list
    simp only [List.filter_filter, Bool.and_comm]
  rw [hComm, hComm, filter_offset_sorted]

/-! ## One entity for each offset -/

/-- What was kept before does not matter to items that stand elsewhere. -/
theorem keepFirst_of_offset_ne {last : Option Nat} {items : List Placed}
    (h : ∀ placed ∈ items, last ≠ some placed.offset) :
    keepFirst last items = keepFirst none items := by
  induction items with
  | nil => rfl
  | cons placed rest ih =>
      have hHead := h placed (by simp)
      have hRest := ih fun other hMem => h other (by simp [hMem])
      simp [keepFirst, hHead, hRest]

theorem keepFirst_append {xs ys : List Placed} {last : Option Nat}
    (hLast : ∀ y ∈ ys, last ≠ some y.offset)
    (h : ∀ x ∈ xs, ∀ y ∈ ys, x.offset ≠ y.offset) :
    keepFirst last (xs ++ ys) = keepFirst last xs ++ keepFirst none ys := by
  induction xs generalizing last with
  | nil => simp [keepFirst, keepFirst_of_offset_ne hLast]
  | cons x xs ih =>
      have hRest : ∀ z ∈ xs, ∀ y ∈ ys, z.offset ≠ y.offset :=
        fun z hz => h z (by simp [hz])
      have hNew : ∀ y ∈ ys, some x.offset ≠ some y.offset := by
        intro y hy
        simpa using h x (by simp) y hy
      simp only [List.cons_append, keepFirst, ih hLast hRest, ih hNew hRest]
      split
      · split <;> rfl
      · rfl

/-- A list that ends before another one begins is ordered on its own. -/
theorem ordered_append {xs ys : List Placed} (h : ∀ x ∈ xs, ∀ y ∈ ys, x.offset < y.offset) :
    ordered (xs ++ ys) = ordered xs ++ ordered ys := by
  have hSorted : ∀ x ∈ sorted xs, ∀ y ∈ sorted ys, x.offset ≠ y.offset := by
    intro x hx y hy
    exact Nat.ne_of_lt (h x (mem_sorted.mp hx) y (mem_sorted.mp hy))
  rw [ordered, sorted_append h, keepFirst_append (by simp) hSorted]
  rfl

theorem ascending_ordered (items : List Placed) : Ascending (ordered items) :=
  (ascending_sorted items).sublist (ordered_sublist items)

theorem mem_of_mem_ordered {items : List Placed} {placed : Placed}
    (h : placed ∈ ordered items) : placed ∈ items :=
  mem_sorted.mp ((ordered_sublist items).subset h)

theorem filter_guard_ordered (items : List Placed) :
    (ordered items).filter (!·.item.isEntity) = sorted (items.filter (!·.item.isEntity)) := by
  rw [ordered, filter_guard_keepFirst, filter_sorted]

theorem keepFirst_keepFirst (last : Option Nat) (items : List Placed) :
    keepFirst last (keepFirst last items) = keepFirst last items := by
  induction items generalizing last with
  | nil => rfl
  | cons placed rest ih =>
      cases hEntity : placed.item.isEntity with
      | false => simp [keepFirst, hEntity, ih]
      | true =>
          by_cases hLast : last = some placed.offset
          · simp only [keepFirst, hEntity, hLast, if_true]
            simpa [hLast] using ih last
          · simp [keepFirst, hEntity, hLast, ih]

/-- Items in order stay as they are, if no offset has an entity twice. -/
theorem ordered_of_ascending {items : List Placed} (h : Ascending items)
    (hFirst : keepFirst none items = items) : ordered items = items := by
  rw [ordered, sorted_of_ascending h, hFirst]

/-- Ordering what is ordered changes nothing. -/
theorem ordered_ordered (items : List Placed) : ordered (ordered items) = ordered items := by
  rw [ordered, sorted_of_ascending (ascending_ordered items), ordered, keepFirst_keepFirst]

theorem filter_entity_keepFirst (last : Option Nat) (items : List Placed) :
    (keepFirst last items).filter (·.item.isEntity) =
      keepFirst last (items.filter (·.item.isEntity)) := by
  induction items generalizing last with
  | nil => rfl
  | cons placed rest ih =>
      cases hEntity : placed.item.isEntity with
      | false => simp [keepFirst, hEntity, ih]
      | true =>
          by_cases hLast : last = some placed.offset
          · simp only [keepFirst, hEntity, hLast, if_true, List.filter_cons_of_pos]
            simpa [hLast] using ih last
          · simp [keepFirst, hEntity, hLast, ih]

/-- Guard lines have no influence on which entities are kept. -/
theorem filter_entity_ordered (items : List Placed) :
    (ordered items).filter (·.item.isEntity) = ordered (items.filter (·.item.isEntity)) := by
  rw [ordered, filter_entity_keepFirst, filter_sorted]
  rfl

/--
Where no entity shares its offset with a guard line, sorted items are known from
the entities and the guard lines among them.
-/
theorem eq_of_filter_isEntity_eq {xs ys : List Placed} (hx : Ascending xs) (hy : Ascending ys)
    (hEntities : xs.filter (·.item.isEntity) = ys.filter (·.item.isEntity))
    (hGuards : xs.filter (!·.item.isEntity) = ys.filter (!·.item.isEntity))
    (hApart : ∀ entity ∈ xs, entity.item.isEntity = true → ∀ line ∈ xs,
      line.item.isEntity = false → entity.offset ≠ line.offset) : xs = ys := by
  have hMem : ∀ placed, placed ∈ xs ↔ placed ∈ ys := by
    intro placed
    have hEntity := congrArg (placed ∈ ·) hEntities
    have hGuard := congrArg (placed ∈ ·) hGuards
    simp only [List.mem_filter, eq_iff_iff] at hEntity hGuard
    cases hKind : placed.item.isEntity with
    | true => simpa [hKind] using hEntity
    | false => simpa [hKind] using hGuard
  apply eq_of_filter_offset_eq hx hy
  intro offset
  by_cases hSome : ∃ entity ∈ xs, entity.item.isEntity = true ∧ entity.offset = offset
  · -- Only entities stand at this offset.
    obtain ⟨entity, hEntity, hKind, hOffset⟩ := hSome
    have hOnly : ∀ list : List Placed, (∀ placed ∈ list, placed ∈ xs) →
        list.filter (standsAt offset) =
          (list.filter (·.item.isEntity)).filter (standsAt offset) := by
      intro list hList
      rw [List.filter_filter]
      apply List.filter_congr
      intro placed hPlaced
      cases hOwn : placed.item.isEntity with
      | true => simp
      | false =>
          have hNe := hApart entity hEntity hKind placed (hList placed hPlaced) hOwn
          simp [standsAt, ← hOffset, Ne.symm hNe]
    rw [hOnly xs fun _ h => h, hOnly ys fun placed h => (hMem placed).mpr h, hEntities]
  · -- Only guard lines do.
    have hOnly : ∀ list : List Placed, (∀ placed ∈ list, placed ∈ xs) →
        list.filter (standsAt offset) =
          (list.filter (!·.item.isEntity)).filter (standsAt offset) := by
      intro list hList
      rw [List.filter_filter]
      apply List.filter_congr
      intro placed hPlaced
      cases hOwn : placed.item.isEntity with
      | false => simp
      | true =>
          have hNe : placed.offset ≠ offset := fun hHere =>
            hSome ⟨placed, hList placed hPlaced, hOwn, hHere⟩
          simp [standsAt, hNe]
    rw [hOnly xs fun _ h => h, hOnly ys fun placed h => (hMem placed).mpr h, hGuards]

/-- Whether an item is an entity that stands at an offset. -/
def isEntityAt (offset : Nat) (placed : Placed) : Bool :=
  placed.item.isEntity && placed.standsAt offset

theorem isEntityAt_iff {offset : Nat} {placed : Placed} :
    placed.isEntityAt offset = true ↔ placed.item.isEntity = true ∧ placed.offset = offset := by
  rw [isEntityAt, Bool.and_eq_true, standsAt_iff]

/-- Of the entities at one offset, the first is kept unless the last one kept stands there. -/
theorem mem_keepFirst_iff {items : List Placed} (hItems : Ascending items) {last : Option Nat}
    (hLast : ∀ offset ∈ last, ∀ placed ∈ items, offset ≤ placed.offset) {placed : Placed}
    (hEntity : placed.item.isEntity = true) :
    placed ∈ keepFirst last items ↔
      last ≠ some placed.offset ∧
        (items.filter (isEntityAt placed.offset)).head? = some placed := by
  induction items generalizing last with
  | nil => simp [keepFirst]
  | cons first rest ih =>
      obtain ⟨hAhead, hRest⟩ := List.pairwise_cons.mp hItems
      have hOlder : ∀ offset ∈ last, ∀ placed ∈ rest, offset ≤ placed.offset := by
        intro offset hOffset placed hPlaced
        exact hLast offset hOffset placed (by simp [hPlaced])
      cases hFirst : first.item.isEntity with
      | false =>
          have hOther : placed ≠ first := by
            rintro rfl
            rw [hEntity] at hFirst
            cases hFirst
          have hSkip : ¬ first.isEntityAt placed.offset = true := by simp [isEntityAt, hFirst]
          simp only [keepFirst, hFirst, Bool.false_eq_true, if_false, List.mem_cons, hOther,
            false_or]
          rw [List.filter_cons_of_neg hSkip]
          exact ih hRest hOlder
      | true =>
          by_cases hSame : first.offset = placed.offset
          · have hTake : first.isEntityAt placed.offset = true := isEntityAt_iff.mpr ⟨hFirst, hSame⟩
            rw [List.filter_cons_of_pos hTake, List.head?_cons, Option.some.injEq]
            simp only [keepFirst, hFirst, if_true, hSame]
            split
            · rename_i hKept
              rw [ih hRest hOlder]
              simp [hKept]
            · rename_i hNew
              have hBehind : ∀ offset ∈ some placed.offset, ∀ other ∈ rest,
                  offset ≤ other.offset := by
                intro offset hOffset other hOther
                cases hOffset
                rw [← hSame]
                exact hAhead other hOther
              rw [List.mem_cons, ih hRest hBehind]
              simp [hNew, eq_comm]
          · have hSkip : ¬ first.isEntityAt placed.offset = true := by
              simp [isEntityAt_iff, hSame]
            have hOther : placed ≠ first := by
              rintro rfl
              exact hSame rfl
            rw [List.filter_cons_of_neg hSkip]
            simp only [keepFirst, hFirst, if_true]
            split
            · exact ih hRest hOlder
            · rename_i hNew
              have hBehind : ∀ offset ∈ some first.offset, ∀ other ∈ rest,
                  offset ≤ other.offset := by
                intro offset hOffset other hOther
                cases hOffset
                exact hAhead other hOther
              rw [List.mem_cons, or_iff_right hOther, ih hRest hBehind]
              constructor
              · rintro ⟨_, hHead⟩
                refine ⟨?_, hHead⟩
                -- What was kept before stands ahead of the first entity, and so not here.
                intro hKept
                have hBefore := hLast placed.offset hKept first (by simp)
                have hAfter := hAhead placed
                  (List.mem_filter.mp (List.mem_of_head? hHead)).1
                omega
              · rintro ⟨_, hHead⟩
                exact ⟨by simpa using hSame, hHead⟩

/-- After ordering, the first entity of every offset is left. -/
theorem mem_ordered_iff {items : List Placed} {placed : Placed}
    (hEntity : placed.item.isEntity = true) :
    placed ∈ ordered items ↔ (items.filter (isEntityAt placed.offset)).head? = some placed := by
  have hFilter : (sorted items).filter (isEntityAt placed.offset) =
      items.filter (isEntityAt placed.offset) := by
    have hBoth : ∀ list : List Placed, list.filter (isEntityAt placed.offset) =
        (list.filter (standsAt placed.offset)).filter (·.item.isEntity) := by
      intro list
      rw [List.filter_filter]
      rfl
    rw [hBoth, hBoth, filter_offset_sorted]
  rw [ordered, mem_keepFirst_iff (ascending_sorted items) (by simp) hEntity, hFilter]
  simp

/-- Where an entity stood, an entity stands after ordering. -/
theorem exists_entity_ordered {items : List Placed} {placed : Placed}
    (hMem : placed ∈ items) (hEntity : placed.item.isEntity = true) :
    ∃ kept ∈ ordered items, kept.item.isEntity = true ∧ kept.offset = placed.offset := by
  have hHere : placed ∈ items.filter (isEntityAt placed.offset) :=
    List.mem_filter.mpr ⟨hMem, isEntityAt_iff.mpr ⟨hEntity, rfl⟩⟩
  cases hHead : (items.filter (isEntityAt placed.offset)).head? with
  | none =>
      rw [List.head?_eq_none_iff] at hHead
      rw [hHead] at hHere
      cases hHere
  | some kept =>
      obtain ⟨hKept, hAt⟩ :=
        isEntityAt_iff.mp (List.mem_filter.mp (List.mem_of_head? hHead)).2
      refine ⟨kept, (mem_ordered_iff hKept).mpr ?_, hKept, hAt⟩
      rw [hAt]
      exact hHead

/-- Items that agree at every offset are ordered alike. -/
theorem ordered_eq_of_filter {xs ys : List Placed}
    (h : ∀ offset, xs.filter (standsAt offset) = ys.filter (standsAt offset)) :
    ordered xs = ordered ys := by
  have hSorted : sorted xs = sorted ys := by
    apply sorted_eq_of_filter (ascending_sorted ys)
    intro offset
    rw [filter_offset_sorted, h offset]
  rw [ordered, ordered, hSorted]

/-- Of two entities that are kept, the later one stands behind the earlier one. -/
theorem pairwise_keepFirst {items : List Placed} (hItems : Ascending items) (last : Option Nat) :
    (keepFirst last items).Pairwise fun a b =>
      a.item.isEntity = true → b.item.isEntity = true → a.offset < b.offset := by
  induction items generalizing last with
  | nil => exact List.Pairwise.nil
  | cons first rest ih =>
      obtain ⟨hAhead, hRest⟩ := List.pairwise_cons.mp hItems
      simp only [keepFirst]
      split
      · split
        · exact ih hRest last
        · refine List.pairwise_cons.mpr ⟨?_, ih hRest _⟩
          intro placed hPlaced _ hEntity
          have hLast : ∀ offset ∈ some first.offset, ∀ other ∈ rest, offset ≤ other.offset := by
            intro offset hOffset other hOther
            cases hOffset
            exact hAhead other hOther
          obtain ⟨hNew, _⟩ := (mem_keepFirst_iff hRest hLast hEntity).mp hPlaced
          have hBehind := hAhead placed ((keepFirst_sublist _ _).subset hPlaced)
          have hOther : first.offset ≠ placed.offset := by simpa using hNew
          omega
      · rename_i hGuard
        refine List.pairwise_cons.mpr ⟨?_, ih hRest last⟩
        intro _ _ hEntity
        exact absurd hEntity hGuard

/-- Ordering leaves one entity at each offset at which there is one: the first. -/
theorem filter_isEntityAt_ordered (items : List Placed) (offset : Nat) :
    (ordered items).filter (isEntityAt offset) =
      (items.filter (isEntityAt offset)).head?.toList := by
  have hMem : ∀ placed, placed ∈ (ordered items).filter (isEntityAt offset) ↔
      (items.filter (isEntityAt offset)).head? = some placed := by
    intro placed
    rw [List.mem_filter]
    constructor
    · rintro ⟨hPlaced, hHere⟩
      obtain ⟨hEntity, rfl⟩ := isEntityAt_iff.mp hHere
      exact (mem_ordered_iff hEntity).mp hPlaced
    · intro hHead
      have hHere := (List.mem_filter.mp (List.mem_of_head? hHead)).2
      obtain ⟨hEntity, rfl⟩ := isEntityAt_iff.mp hHere
      exact ⟨(mem_ordered_iff hEntity).mpr hHead, hHere⟩
  have hPairs : ((ordered items).filter (isEntityAt offset)).Pairwise fun a b =>
      a.item.isEntity = true → b.item.isEntity = true → a.offset < b.offset :=
    (pairwise_keepFirst (ascending_sorted items) none).filter _
  have hHere : ∀ placed ∈ (ordered items).filter (isEntityAt offset),
      placed.item.isEntity = true ∧ placed.offset = offset :=
    fun placed hPlaced => isEntityAt_iff.mp (List.mem_filter.mp hPlaced).2
  generalize (ordered items).filter (isEntityAt offset) = kept at hMem hPairs hHere
  match kept with
  | [] =>
      cases hHead : (items.filter (isEntityAt offset)).head? with
      | none => rfl
      | some placed => simpa using (hMem placed).mpr hHead
  | [placed] => rw [(hMem placed).mp (by simp), Option.toList_some]
  | first :: second :: rest =>
      obtain ⟨hFirst, hFirstAt⟩ := hHere first (by simp)
      obtain ⟨hSecond, hSecondAt⟩ := hHere second (by simp)
      have hLess := (List.pairwise_cons.mp hPairs).1 second (by simp) hFirst hSecond
      omega

/-- Among ordered items an entity has its place by its offset. -/
theorem before_eq_of_offset_eq {items before before' after after' : List Placed}
    {entity entity' : Placed} (hItems : ordered items = before ++ entity :: after)
    (hItems' : ordered items = before' ++ entity' :: after')
    (hEntity : entity.item.isEntity = true) (hEntity' : entity'.item.isEntity = true)
    (hOffset : entity.offset = entity'.offset) : before = before' := by
  have hPairs := pairwise_keepFirst (ascending_sorted items) none
  rw [← ordered] at hPairs
  have hBoth := hItems.symm.trans hItems'
  rcases List.append_eq_append_iff.mp hBoth with ⟨gap, rfl, hGap⟩ | ⟨gap, rfl, hGap⟩
  · cases gap with
    | nil => simp
    | cons head gap =>
        obtain ⟨rfl, rfl⟩ := List.cons.inj hGap
        rw [hItems] at hPairs
        have hLess := (List.pairwise_cons.mp (List.pairwise_append.mp hPairs).2.1).1 entity'
          (by simp) hEntity hEntity'
        omega
  · cases gap with
    | nil => simp
    | cons head gap =>
        obtain ⟨rfl, rfl⟩ := List.cons.inj hGap
        rw [hItems'] at hPairs
        have hLess := (List.pairwise_cons.mp (List.pairwise_append.mp hPairs).2.1).1 entity
          (by simp) hEntity' hEntity
        omega

end ValueNames.Placed
