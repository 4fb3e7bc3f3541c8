import ValueNames.Entity

/-!
# Items and their order

The result of a scan is a list of placed items: entities, and the guard lines
around them. Items are ordered by offset. Entities of the same offset are
repeats of one another, and only the first is kept.

## Main results

* `ordered_perm_guards` — ordering keeps every guard line.
* `ordered_sublist` — ordering selects from the items sorted by offset.
-/

namespace ValueNames

/-- A line that opens or closes a guard. -/
structure GuardLine where
  text : Text
  /-- Whether the line closes the guard. -/
  closing : Bool
deriving DecidableEq, Repr

/-- An element of the result of a scan. -/
inductive Item
  | guard (line : GuardLine)
  | entity (entity : Entity)
deriving DecidableEq, Repr

/-- Whether an item is an entity. -/
def Item.isEntity : Item → Bool
  | guard _ => false
  | entity _ => true

/-- An item at an offset of the source. -/
structure Placed where
  offset : Nat
  item : Item
deriving DecidableEq, Repr

namespace Placed

/-- Sorts by offset; items of the same offset stay in their order. -/
def sorted (items : List Placed) : List Placed :=
  items.mergeSort fun a b => a.offset ≤ b.offset

/--
Drops every entity whose offset is that of the entity kept last. In a sorted
list these are the repeats.
-/
def keepFirst (last : Option Nat) : List Placed → List Placed
  | [] => []
  | placed :: rest =>
      if placed.item.isEntity then
        if last = some placed.offset then keepFirst last rest
        else placed :: keepFirst (some placed.offset) rest
      else placed :: keepFirst last rest

/-- The items by offset, with one entity for each offset. -/
def ordered (items : List Placed) : List Placed := keepFirst none (sorted items)

/-- The number of entities among some items. -/
def entityCount (items : List Placed) : Nat := items.countP (·.item.isEntity)

theorem keepFirst_sublist (last : Option Nat) (items : List Placed) :
    (keepFirst last items).Sublist items := by
  induction items generalizing last with
  | nil => simp [keepFirst]
  | cons placed rest ih =>
      simp only [keepFirst]
      split
      · split
        · exact (ih last).cons placed
        · exact (ih _).cons_cons placed
      · exact (ih last).cons_cons placed

theorem ordered_sublist (items : List Placed) : (ordered items).Sublist (sorted items) :=
  keepFirst_sublist none (sorted items)

theorem filter_guard_keepFirst (last : Option Nat) (items : List Placed) :
    (keepFirst last items).filter (!·.item.isEntity) = items.filter (!·.item.isEntity) := by
  induction items generalizing last with
  | nil => rfl
  | cons placed rest ih =>
      simp only [keepFirst]
      split
      · rename_i hEntity
        split <;> simp [hEntity, ih]
      · rename_i hEntity
        simp [hEntity, ih]

theorem ordered_perm_guards (items : List Placed) :
    ((ordered items).filter (!·.item.isEntity)).Perm (items.filter (!·.item.isEntity)) := by
  rw [ordered, filter_guard_keepFirst]
  exact (List.mergeSort_perm items _).filter _

end Placed

end ValueNames
