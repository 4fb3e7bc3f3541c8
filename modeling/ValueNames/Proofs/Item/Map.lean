import ValueNames.Fault
import ValueNames.Item

/-!
# Results and items that are told in another way

The same findings can be told with other offsets, for a text that stands elsewhere or is
written with other line ends. What matters is that they are told one by one, and that the
offsets stay in their order.

## Main results

* `mapResult_mapM` — a traversal of what is told in another way.
* `Placed.ordered_map` — items keep their order if their offsets do.
-/

namespace ValueNames

/-! ## Results -/

/-- A result whose fault or value is told in another way. -/
def mapResult {α β : Type} (onFault : Fault → Fault) (f : α → β) :
    Except Fault α → Except Fault β
  | .ok a => .ok (f a)
  | .error fault => .error (onFault fault)

section Results

variable {α β γ δ : Type} {onFault : Fault → Fault} {f : α → β} {g : γ → δ}

theorem mapResult_bind {next : α → Except Fault γ} {next' : β → Except Fault δ}
    {result : Except Fault α}
    (h : ∀ a, result = .ok a → next' (f a) = mapResult onFault g (next a)) :
    (mapResult onFault f result).bind next' = mapResult onFault g (result.bind next) := by
  cases result with
  | error fault => rfl
  | ok a => exact h a rfl

theorem mapResult_map {next : α → γ} {next' : β → δ} {result : Except Fault α}
    (h : ∀ a, result = .ok a → next' (f a) = g (next a)) :
    (mapResult onFault f result).map next' = mapResult onFault g (result.map next) := by
  cases result with
  | error fault => rfl
  | ok a => exact congrArg Except.ok (h a rfl)

/-- What is wrong with one element is told of it in the other way. -/
theorem mapResult_mapM {next : α → Except Fault γ} {next' : β → Except Fault δ} {xs : List α}
    (h : ∀ x ∈ xs, next' (f x) = mapResult onFault g (next x)) :
    (xs.map f).mapM next' = mapResult onFault (List.map g) (xs.mapM next) := by
  induction xs with
  | nil => rfl
  | cons x xs ih =>
      rw [List.map_cons, List.mapM_cons, List.mapM_cons, h x (by simp),
        ih fun y hy => h y (by simp [hy])]
      cases next x with
      | error fault => rfl
      | ok c =>
          cases xs.mapM next with
          | error fault => rfl
          | ok cs => rfl

end Results

/-! ## Order -/

namespace Placed

variable {f : Placed → Placed} (hEntity : ∀ placed, (f placed).item.isEntity = placed.item.isEntity)

include hEntity

theorem keepFirst_map {last last' : Option Nat} {items : List Placed}
    (hLast : ∀ placed ∈ items, last' = some (f placed).offset ↔ last = some placed.offset)
    (hSame : ∀ a ∈ items, ∀ b ∈ items, (f a).offset = (f b).offset ↔ a.offset = b.offset) :
    keepFirst last' (items.map f) = (keepFirst last items).map f := by
  induction items generalizing last last' with
  | nil => rfl
  | cons placed rest ih =>
      have hRest : ∀ a ∈ rest, ∀ b ∈ rest, (f a).offset = (f b).offset ↔ a.offset = b.offset :=
        fun a ha b hb => hSame a (by simp [ha]) b (by simp [hb])
      simp only [List.map_cons, keepFirst, hEntity, hLast placed (by simp)]
      split
      · split
        · exact ih (fun other hOther => hLast other (by simp [hOther])) hRest
        · refine congrArg (f placed :: ·) (ih (fun other hOther => ?_) hRest)
          rw [Option.some.injEq, Option.some.injEq]
          exact hSame placed (by simp) other (by simp [hOther])
      · exact congrArg (f placed :: ·)
          (ih (fun other hOther => hLast other (by simp [hOther])) hRest)

/-- Items keep their order if their offsets do. -/
theorem ordered_map {items : List Placed}
    (hOrder : ∀ a ∈ items, ∀ b ∈ items, (f a).offset ≤ (f b).offset ↔ a.offset ≤ b.offset) :
    ordered (items.map f) = (ordered items).map f := by
  have hSorted : sorted (items.map f) = (sorted items).map f := by
    refine (List.map_mergeSort ?_).symm
    intro a ha b hb
    exact decide_eq_decide.mpr (hOrder a ha b hb).symm
  have hMem : ∀ a ∈ sorted items, a ∈ items := fun a ha => List.mem_mergeSort.mp ha
  rw [ordered, ordered, hSorted]
  refine keepFirst_map hEntity (fun _ _ => by simp) ?_
  intro a ha b hb
  have hForth := hOrder a (hMem a ha) b (hMem b hb)
  have hBack := hOrder b (hMem b hb) a (hMem a ha)
  omega

end Placed

end ValueNames
