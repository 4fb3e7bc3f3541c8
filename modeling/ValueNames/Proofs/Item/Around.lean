import ValueNames.Proofs.Conditional.Truth
import ValueNames.Proofs.Item.Nesting

/-!
# The guards around an item

At every place among nested items some pairs of guard lines are open. They are
what decides whether the function generated for an entity is compiled.

## Main results

* `Around.truths_eq` — read with truth values, the items before a place open
  the conditions of the pairs around it.
-/

namespace ValueNames.Item

/--
`Around before guards after`: the pairs of guard lines that are open between the
items `before` and the items `after` are those of the guards, outermost first.
-/
inductive Around : List Item → List Guard → List Item → Prop
  | here {before after : List Item} (hBefore : WellNested before) (hAfter : WellNested after) :
      Around before [] after
  | inside {before inner inner' after : List Item} {guard : Guard} {guards : List Guard}
      (hBefore : WellNested before) (hInner : Around inner guards inner')
      (hAfter : WellNested after) :
      Around (before ++ opening guard :: inner) (guard :: guards)
        (inner' ++ closing guard :: after)

namespace Around

theorem prepend {front before after : List Item} {guards : List Guard} (hFront : WellNested front)
    (h : Around before guards after) : Around (front ++ before) guards after := by
  cases h with
  | here hBefore hAfter => exact .here (hFront.append hBefore) hAfter
  | inside hBefore hInner hAfter =>
      rw [← List.append_assoc]
      exact .inside (hFront.append hBefore) hInner hAfter

theorem append {before after back : List Item} {guards : List Guard}
    (h : Around before guards after) (hBack : WellNested back) :
    Around before guards (after ++ back) := by
  cases h with
  | here hBefore hAfter => exact .here hBefore (hAfter.append hBack)
  | inside hBefore hInner hAfter =>
      rw [List.append_assoc, List.cons_append]
      exact .inside hBefore hInner (hAfter.append hBack)

end Around

/-! ## Reading with truth values -/

/--
The truth values of the conditions open behind some items, innermost first. An
opening line is read for its condition.
-/
def truths (holds : Guard → Bool) (values : List Bool) : List Item → List Bool
  | [] => values
  | .entity _ :: rest => truths holds values rest
  | .guard line :: rest =>
      if line.closing then truths holds values.tail rest
      else truths holds ((Guard.ofOpening? line.text).any holds :: values) rest

/-- Whether what follows some items is compiled: all conditions open there hold. -/
def compiled (holds : Guard → Bool) (before : List Item) : Bool :=
  (truths holds [] before).all id

section Truths

variable (holds : Guard → Bool) (values : List Bool)

theorem truths_append (front back : List Item) :
    truths holds values (front ++ back) = truths holds (truths holds values front) back := by
  induction front generalizing values with
  | nil => rfl
  | cons item front ih =>
      cases item with
      | entity found => exact ih values
      | guard line =>
          rw [List.cons_append, truths, truths]
          split
          · exact ih _
          · exact ih _

theorem truths_opening (guard : Guard) (rest : List Item) :
    truths holds values (opening guard :: rest) = truths holds (holds guard :: values) rest := by
  rw [opening, truths, if_neg Bool.false_ne_true, Guard.ofOpening?_opening, Option.any_some]

theorem truths_closing (guard : Guard) (rest : List Item) :
    truths holds values (closing guard :: rest) = truths holds values.tail rest :=
  rfl

end Truths

/-- Nested pairs leave nothing open behind them. -/
theorem WellNested.truths_eq {items : List Item} (h : WellNested items) (holds : Guard → Bool)
    (values : List Bool) : truths holds values items = values := by
  induction h generalizing values with
  | nil => rfl
  | entity _ ih => exact ih values
  | @pair guard inside rest _ _ _ ihInside ihRest =>
      rw [truths_opening, truths_append, ihInside, truths_closing, List.tail_cons, ihRest]

/-- The conditions open at a place are those of the pairs around it. -/
theorem Around.truths_eq {before after : List Item} {guards : List Guard}
    (h : Around before guards after) (holds : Guard → Bool) (values : List Bool) :
    truths holds values before = guards.reverse.map holds ++ values := by
  induction h generalizing values with
  | here hBefore _ => exact hBefore.truths_eq holds values
  | inside hBefore _ _ ih =>
      rw [truths_append, hBefore.truths_eq, truths_opening, ih]
      simp

/-- What stands at a place is compiled exactly when all the guards around it hold. -/
theorem Around.compiled_eq {before after : List Item} {guards : List Guard}
    (h : Around before guards after) (holds : Guard → Bool) :
    compiled holds before = guards.all holds := by
  rw [compiled, h.truths_eq, List.append_nil, List.all_map, List.all_reverse]
  rfl

end ValueNames.Item
