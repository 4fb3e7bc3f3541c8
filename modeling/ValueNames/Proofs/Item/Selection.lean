import ValueNames.Proofs.Item.Order
import Mathlib.Data.List.FinRange
import Mathlib.Data.List.Sort
import Mathlib.Tactic.MkIffOfInductiveProp

/-!
# What ordering selects

One entity can be listed twice at the same offset, with a guard line in between. The items
themselves do not tell which of the two is kept, so it is told by positions: every guard
line is kept, and of the entities at one offset the one at the lowest position. What is
kept is listed by offset, and by position where the offset is the same. Only one list can
be made up like this, and it is the ordered one.

In a sorted list a repeat is known by the offset of the entity kept last. If the offsets of
all entities kept so far are remembered instead, the list need not be sorted, and the
items at one offset can be looked at on their own.

## Main results

* `ordered_eq_keepUnseen` — the offset kept last stands for all that were seen.
* `ordered_eq_sorted_keepUnseen` — repeats can be dropped before or after sorting.
* `keepUnseen_eq_map` — the positions of what is kept.
* `selects_iff` — ordering makes the only selection there is.
* `ordered_stable_firstWins` — the order, the guard lines and the entities of ordered items,
  their places, and ordering of what is ordered already or follows.
-/

namespace ValueNames.Placed

/-! ## Offsets that were seen -/

/-- Drops every entity at a seen offset; the offset of an entity that stays is seen from then on. -/
def keepUnseen (seen : List Nat) : List Placed → List Placed
  | [] => []
  | placed :: rest =>
      if placed.item.isEntity then
        if placed.offset ∈ seen then keepUnseen seen rest
        else placed :: keepUnseen (placed.offset :: seen) rest
      else placed :: keepUnseen seen rest

/-- Along ascending items only the greatest seen offset can occur again. -/
theorem keepFirst_eq_keepUnseen {items : List Placed} (hItems : Ascending items)
    {last : Option Nat} {seen : List Nat}
    (hBehind : ∀ offset ∈ seen, ∀ placed ∈ items, offset ≤ placed.offset)
    (hLast : ∀ placed ∈ items, placed.offset ∈ seen ↔ last = some placed.offset) :
    keepFirst last items = keepUnseen seen items := by
  induction items generalizing last seen with
  | nil => rfl
  | cons first rest ih =>
      obtain ⟨hAhead, hRest⟩ := List.pairwise_cons.mp hItems
      have hFirst := hLast first (by simp)
      have hSame := ih hRest (fun offset hOffset placed hPlaced =>
        hBehind offset hOffset placed (by simp [hPlaced])) fun placed hPlaced =>
          hLast placed (by simp [hPlaced])
      have hNew : keepFirst (some first.offset) rest =
          keepUnseen (first.offset :: seen) rest := by
        refine ih hRest ?_ ?_
        · intro offset hOffset placed hPlaced
          rcases List.mem_cons.mp hOffset with rfl | hOlder
          · exact hAhead placed hPlaced
          · exact hBehind offset hOlder placed (by simp [hPlaced])
        · intro placed hPlaced
          rw [List.mem_cons, Option.some.injEq]
          constructor
          -- A seen offset is not behind the first item, and what follows is not ahead of it.
          · rintro (hHere | hOlder)
            · exact hHere.symm
            · have hBefore := hBehind placed.offset hOlder first (by simp)
              exact Nat.le_antisymm (hAhead placed hPlaced) hBefore
          · exact fun hHere => .inl hHere.symm
      simp only [keepFirst, keepUnseen, hFirst, hSame, hNew]

theorem ordered_eq_keepUnseen (items : List Placed) :
    ordered items = keepUnseen [] (sorted items) :=
  keepFirst_eq_keepUnseen (ascending_sorted items) (by simp) (by simp)

/-- Of the seen offsets only those matter at which items follow. -/
theorem keepUnseen_congr {items : List Placed} {seen seen' : List Nat}
    (h : ∀ placed ∈ items, placed.offset ∈ seen ↔ placed.offset ∈ seen') :
    keepUnseen seen items = keepUnseen seen' items := by
  induction items generalizing seen seen' with
  | nil => rfl
  | cons first rest ih =>
      have hRest : ∀ placed ∈ rest, placed.offset ∈ seen ↔ placed.offset ∈ seen' :=
        fun placed hPlaced => h placed (by simp [hPlaced])
      have hNew : keepUnseen (first.offset :: seen) rest =
          keepUnseen (first.offset :: seen') rest := by
        refine ih fun placed hPlaced => ?_
        rw [List.mem_cons, List.mem_cons, hRest placed hPlaced]
      simp only [keepUnseen, h first (by simp), ih hRest, hNew]

/-- Repeats at one offset are told without the items that stand elsewhere. -/
theorem filter_offset_keepUnseen (offset : Nat) (seen : List Nat) (items : List Placed) :
    (keepUnseen seen items).filter (standsAt offset) =
      keepUnseen seen (items.filter (standsAt offset)) := by
  induction items generalizing seen with
  | nil => rfl
  | cons first rest ih =>
      by_cases hHere : first.offset = offset
      · subst hHere
        simp only [keepUnseen, List.filter_cons, standsAt_iff, if_true]
        split
        · split
          · exact ih seen
          · simp [ih]
        · simp [ih]
      · have hElsewhere : keepUnseen (first.offset :: seen) (rest.filter (standsAt offset)) =
            keepUnseen seen (rest.filter (standsAt offset)) := by
          refine keepUnseen_congr fun placed hPlaced => ?_
          have hAt := standsAt_iff.mp (List.mem_filter.mp hPlaced).2
          rw [List.mem_cons, hAt, or_iff_right (Ne.symm hHere)]
        simp only [keepUnseen, List.filter_cons, standsAt_iff, hHere, if_false]
        split
        · split
          · exact ih seen
          · simp [hHere, ih, hElsewhere]
        · simp [hHere, ih]

/-- Repeats can be dropped before sorting as well as after it. -/
theorem ordered_eq_sorted_keepUnseen (items : List Placed) :
    ordered items = sorted (keepUnseen [] items) := by
  refine (sorted_eq_of_filter (ascending_ordered items) fun offset => ?_).symm
  rw [ordered_eq_keepUnseen, filter_offset_keepUnseen, filter_offset_sorted,
    filter_offset_keepUnseen]

/-! ## Positions -/

/--
Whether the item at a position is kept after some offsets were seen: a guard line always,
an entity if its offset was not seen and no entity ahead of it stands there.
-/
def KeptAt (seen : List Nat) (items : List Placed) (i : Fin items.length) : Prop :=
  items[i].item.isEntity = true →
    items[i].offset ∉ seen ∧ ∀ j < i, ¬ items[j].isEntityAt items[i].offset = true

instance (seen : List Nat) (items : List Placed) : DecidablePred (KeptAt seen items) :=
  fun i => inferInstanceAs (Decidable (items[i].item.isEntity = true →
    items[i].offset ∉ seen ∧ ∀ j < i, ¬ items[j].isEntityAt items[i].offset = true))

section Positions

variable {seen seen' : List Nat} {first : Placed} {rest : List Placed}

/-- Ahead of an item of the rest stand the first one and those ahead of it there. -/
theorem forall_lt_succ_iff {offset : Nat} (i : Fin rest.length) :
    (∀ j : Fin (first :: rest).length, j < i.succ →
      ¬ (first :: rest)[j].isEntityAt offset = true) ↔
        ¬ first.isEntityAt offset = true ∧ ∀ j < i, ¬ rest[j].isEntityAt offset = true := by
  constructor
  · intro h
    exact ⟨h 0 (Fin.succ_pos i), fun j hj => h j.succ (Fin.succ_lt_succ_iff.mpr hj)⟩
  · rintro ⟨hFirst, hRest⟩ j
    cases j using Fin.cases with
    | zero => exact fun _ => hFirst
    | succ j => exact fun hj => hRest j (Fin.succ_lt_succ_iff.mp hj)

theorem keptAt_zero :
    KeptAt seen (first :: rest) (0 : Fin (rest.length + 1)) ↔
      (first.item.isEntity = true → first.offset ∉ seen) := by
  simp [KeptAt]

/-- An item of the rest is kept if its offset is not seen once the first item has passed. -/
theorem keptAt_succ
    (h : ∀ offset, offset ∈ seen' ↔ offset ∈ seen ∨ first.isEntityAt offset = true)
    (i : Fin rest.length) :
    KeptAt seen (first :: rest) i.succ ↔ KeptAt seen' rest i := by
  calc KeptAt seen (first :: rest) i.succ
    _ ↔ (rest[i].item.isEntity = true → rest[i].offset ∉ seen ∧
          ¬ first.isEntityAt rest[i].offset = true ∧
            ∀ j < i, ¬ rest[j].isEntityAt rest[i].offset = true) :=
        imp_congr_right fun _ => and_congr_right fun _ => forall_lt_succ_iff i
    _ ↔ KeptAt seen' rest i := by rw [KeptAt, h, not_or, and_assoc]

/-- What is kept of the rest, by positions in the whole list and by those in the rest. -/
theorem filter_keptAt_succ
    (h : ∀ offset, offset ∈ seen' ↔ offset ∈ seen ∨ first.isEntityAt offset = true) :
    (((List.finRange rest.length).map Fin.succ).filter
        (KeptAt seen (first :: rest) ·)).map (first :: rest).get =
      ((List.finRange rest.length).filter (KeptAt seen' rest ·)).map rest.get := by
  have hSame : ∀ i ∈ List.finRange rest.length,
      decide (KeptAt seen (first :: rest) i.succ) = decide (KeptAt seen' rest i) :=
    fun i _ => decide_eq_decide.mpr (keptAt_succ h i)
  rw [← List.filter_congr hSame, List.filter_map, List.map_map]
  rfl

/-- The positions of the items that stay when repeats are dropped. -/
theorem keepUnseen_eq_map (seen : List Nat) (items : List Placed) :
    keepUnseen seen items =
      ((List.finRange items.length).filter (KeptAt seen items ·)).map items.get := by
  induction items generalizing seen with
  | nil => rfl
  | cons first rest ih =>
      have hPositions : List.finRange (first :: rest).length =
          (0 : Fin (rest.length + 1)) :: (List.finRange rest.length).map Fin.succ :=
        List.finRange_succ
      rw [hPositions, List.filter_cons]
      simp only [keepUnseen, ih, keptAt_zero, decide_eq_true_eq]
      -- The first item is kept or not; what follows is filtered with the offsets seen then.
      split
      · rename_i hEntity
        split
        · rename_i hSeen
          rw [if_neg (by simp [hEntity, hSeen])]
          refine (filter_keptAt_succ fun offset => ?_).symm
          rw [isEntityAt_iff, iff_self_or]
          rintro ⟨_, rfl⟩
          exact hSeen
        · rename_i hNew
          rw [if_pos fun _ => hNew, List.map_cons]
          refine congrArg (first :: ·) (filter_keptAt_succ fun offset => ?_).symm
          rw [List.mem_cons, isEntityAt_iff, or_comm, eq_comm]
          simp [hEntity]
      · rename_i hGuard
        rw [if_pos fun hEntity => absurd hEntity hGuard, List.map_cons]
        refine congrArg (first :: ·) (filter_keptAt_succ fun offset => ?_).symm
        simp [isEntityAt, hGuard]

end Positions

/-! ## Selections -/

/-- Positions of a list that are selected, in the order in which their items are listed. -/
@[mk_iff] structure IsSelection (items : List Placed) (positions : List (Fin items.length)) :
    Prop where
  /-- Every guard line is selected. -/
  guards : ∀ i, items[i].item.isEntity = false → i ∈ positions
  /-- An entity is selected if no entity ahead of it stands at its offset. -/
  entities : ∀ i, items[i].item.isEntity = true →
    (i ∈ positions ↔ ∀ j < i, ¬ items[j].isEntityAt items[i].offset = true)
  ascending : positions.Pairwise fun i j => items[i].offset ≤ items[j].offset
  /-- Items at one offset stay in the order of the list, and none is listed twice. -/
  stable : positions.Pairwise fun i j => items[i].offset = items[j].offset → i < j

instance (items : List Placed) (positions : List (Fin items.length)) :
    Decidable (IsSelection items positions) :=
  decidable_of_iff _ (isSelection_iff items positions).symm

/-- Whether a list holds the selected items of another one. -/
def Selects (items selected : List Placed) : Prop :=
  ∃ positions, IsSelection items positions ∧ selected = positions.map items.get

section Selections

variable {items : List Placed} {positions : List (Fin items.length)}

theorem keptAt_of_guard {seen : List Nat} {i : Fin items.length}
    (h : items[i].item.isEntity = false) : KeptAt seen items i :=
  fun hEntity => absurd (h.symm.trans hEntity) Bool.false_ne_true

theorem keptAt_nil_iff {i : Fin items.length} (h : items[i].item.isEntity = true) :
    KeptAt [] items i ↔ ∀ j < i, ¬ items[j].isEntityAt items[i].offset = true := by
  rw [KeptAt, forall_prop_of_true h]
  exact and_iff_right List.not_mem_nil

theorem IsSelection.mem_iff (h : IsSelection items positions) (i : Fin items.length) :
    i ∈ positions ↔ KeptAt [] items i := by
  cases hEntity : items[i].item.isEntity with
  | false => exact iff_of_true (h.guards i hEntity) (keptAt_of_guard hEntity)
  | true => rw [h.entities i hEntity, keptAt_nil_iff hEntity]

/-- At one offset the selected positions are those of the kept items, from the lowest on. -/
theorem IsSelection.filter_eq (h : IsSelection items positions) (offset : Nat) :
    positions.filter (standsAt offset ∘ items.get) =
      ((List.finRange items.length).filter (KeptAt [] items ·)).filter
        (standsAt offset ∘ items.get) := by
  have hHere : (positions.filter (standsAt offset ∘ items.get)).Pairwise (· < ·) := by
    refine (h.stable.filter _).imp_of_mem ?_
    intro i j hi hj hLess
    have hiAt := standsAt_iff.mp (List.mem_filter.mp hi).2
    have hjAt := standsAt_iff.mp (List.mem_filter.mp hj).2
    exact hLess (hiAt.trans hjAt.symm)
  have hThere := ((List.pairwise_lt_finRange items.length).filter
    (KeptAt [] items ·)).filter (standsAt offset ∘ items.get)
  refine hHere.eq_of_mem_iff hThere fun i => ?_
  simp [h.mem_iff, and_comm]

/-- The selected items are the ordered ones. -/
theorem IsSelection.map_eq (h : IsSelection items positions) :
    positions.map items.get = ordered items := by
  have hAscending : Ascending (positions.map items.get) := List.pairwise_map.mpr h.ascending
  rw [ordered_eq_sorted_keepUnseen]
  refine (sorted_eq_of_filter hAscending fun offset => ?_).symm
  rw [keepUnseen_eq_map, List.filter_map, List.filter_map, h.filter_eq]

/-- Whether one position goes before another, or is the same: by offset, then as they stand. -/
def NotBehind (items : List Placed) (i j : Fin items.length) : Prop :=
  items[i].offset < items[j].offset ∨ (items[i].offset = items[j].offset ∧ i ≤ j)

instance (items : List Placed) : DecidableRel (NotBehind items) :=
  fun i j => inferInstanceAs (Decidable
    (items[i].offset < items[j].offset ∨ (items[i].offset = items[j].offset ∧ i ≤ j)))

theorem NotBehind.trans {i j k : Fin items.length} (hFirst : NotBehind items i j)
    (hSecond : NotBehind items j k) : NotBehind items i k := by
  unfold NotBehind at *
  omega

theorem NotBehind.total (i j : Fin items.length) : NotBehind items i j ∨ NotBehind items j i := by
  unfold NotBehind
  omega

/-- The positions of the kept items are a selection once they are sorted. -/
theorem exists_isSelection (items : List Placed) :
    ∃ positions, IsSelection items positions := by
  let kept := (List.finRange items.length).filter (KeptAt [] items ·)
  let positions := kept.mergeSort fun i j => NotBehind items i j
  have hSorted : positions.Pairwise fun i j => decide (NotBehind items i j) = true :=
    List.pairwise_mergeSort (fun i j k => by simpa using NotBehind.trans)
      (fun i j => by simpa using NotBehind.total i j) kept
  have hOrder : positions.Pairwise (NotBehind items) := by simpa using hSorted
  have hNodup : positions.Nodup :=
    (List.mergeSort_perm kept _).nodup_iff.mpr ((List.nodup_finRange _).filter _)
  have hMem : ∀ i, i ∈ positions ↔ KeptAt [] items i := by
    intro i
    simp [positions, kept]
  refine ⟨positions, ?_, ?_, ?_, ?_⟩
  · exact fun i hGuard => (hMem i).mpr (keptAt_of_guard hGuard)
  · exact fun i hEntity => (hMem i).trans (keptAt_nil_iff hEntity)
  · refine hOrder.imp fun {i j} h => ?_
    rcases h with hLess | ⟨hSame, _⟩
    · exact Nat.le_of_lt hLess
    · exact Nat.le_of_eq hSame
  · refine (hOrder.and hNodup).imp fun {i j} ⟨h, hOther⟩ hSame => ?_
    rcases h with hLess | ⟨_, hLe⟩
    · omega
    · exact lt_of_le_of_ne hLe hOther

/-- The ordered items are the only ones that a list selects. -/
theorem selects_iff {selected : List Placed} :
    Selects items selected ↔ selected = ordered items := by
  constructor
  · rintro ⟨positions, hPositions, rfl⟩
    exact hPositions.map_eq
  · rintro rfl
    obtain ⟨positions, hPositions⟩ := exists_isSelection items
    exact ⟨positions, hPositions, hPositions.map_eq.symm⟩

end Selections

/-! ## Ordering -/

/-- Every guard line stays as often as it was there. -/
theorem count_guard_ordered (items : List Placed) (offset : Nat) (line : GuardLine) :
    (ordered items).count ⟨offset, .guard line⟩ = items.count ⟨offset, .guard line⟩ := by
  have hFilter : ∀ list : List Placed, (list.filter (!·.item.isEntity)).count
      ⟨offset, .guard line⟩ = list.count ⟨offset, .guard line⟩ :=
    fun _ => List.count_filter (p := fun placed : Placed => !placed.item.isEntity) rfl
  rw [← hFilter, (ordered_perm_guards items).count_eq, hFilter]

/--
Ordering is stable, and the first entity of an offset wins. Ordered items ascend, with
every guard line as often as before, and with one entity at each offset that had one: the
first. They are the selection of the items by position, and the only one. Ordering them
again changes nothing, and lists of which one ends before the other begins are ordered
one by one.
-/
theorem ordered_stable_firstWins :
    (∀ items : List Placed,
      Ascending (ordered items) ∧
      (∀ offset line, (ordered items).count ⟨offset, .guard line⟩ =
        items.count ⟨offset, .guard line⟩) ∧
      (∀ offset, (ordered items).filter (isEntityAt offset) =
        (items.filter (isEntityAt offset)).head?.toList) ∧
      (∀ selected, Selects items selected ↔ selected = ordered items) ∧
      ordered (ordered items) = ordered items) ∧
    ∀ xs ys : List Placed, (∀ x ∈ xs, ∀ y ∈ ys, x.offset < y.offset) →
      ordered (xs ++ ys) = ordered xs ++ ordered ys := by
  constructor
  · intro items
    exact ⟨ascending_ordered items, count_guard_ordered items, filter_isEntityAt_ordered items,
      fun _ => selects_iff, ordered_ordered items⟩
  · intro xs ys h
    exact ordered_append h

/-- An enumeration without a body at an offset. -/
def named (offset : Nat) (name : String) : Placed :=
  ⟨offset, .entity (.enumeration ⟨name.toList, name.toList, [], ⟨offset, offset + 1⟩⟩)⟩

/-- Items out of order, with a guard line among three entities at one offset. -/
def repeated : List Placed :=
  [named 10 "a", ⟨2, .guard ⟨"#ifdef A".toList, false⟩⟩, ⟨10, .guard ⟨"#endif".toList, true⟩⟩,
    named 10 "b", named 5 "c", named 10 "a"]

/-- Items that all stand behind those. -/
def furtherBehind : List Placed := [named 12 "d", named 11 "e", named 12 "f"]

/-- The entity that comes first stays, ahead of the guard line at its offset. -/
theorem isSelection_repeated : IsSelection repeated
    [⟨1, by decide⟩, ⟨4, by decide⟩, ⟨0, by decide⟩, ⟨2, by decide⟩] := by
  decide

theorem isSelection_furtherBehind : IsSelection furtherBehind [⟨1, by decide⟩, ⟨0, by decide⟩] := by
  decide

/-- Those items are ordered on their own, and repeats go by their place in the input. -/
theorem ordered_repeated :
    (∀ x ∈ repeated, ∀ y ∈ furtherBehind, x.offset < y.offset) ∧
      ordered (repeated ++ furtherBehind) = ordered repeated ++ ordered furtherBehind ∧
      ordered repeated = [⟨2, .guard ⟨"#ifdef A".toList, false⟩⟩, named 5 "c", named 10 "a",
        ⟨10, .guard ⟨"#endif".toList, true⟩⟩] ∧
      ordered furtherBehind = [named 11 "e", named 12 "d"] := by
  obtain ⟨hEach, hAppend⟩ := ordered_stable_firstWins
  have hBelow : ∀ x ∈ repeated, ∀ y ∈ furtherBehind, x.offset < y.offset := by decide
  obtain ⟨_, _, _, hOnly, _⟩ := hEach repeated
  obtain ⟨_, _, _, hOnlyBehind, _⟩ := hEach furtherBehind
  have hSelects : Selects repeated _ := ⟨_, isSelection_repeated, rfl⟩
  have hSelectsBehind : Selects furtherBehind _ := ⟨_, isSelection_furtherBehind, rfl⟩
  exact ⟨hBelow, hAppend _ _ hBelow, ((hOnly _).mp hSelects).symm,
    ((hOnlyBehind _).mp hSelectsBehind).symm⟩

end ValueNames.Placed
