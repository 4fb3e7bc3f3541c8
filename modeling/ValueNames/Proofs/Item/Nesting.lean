import ValueNames.Listing

/-!
# Nested guard lines

The guard lines among some items are brackets. This module says when they are
well nested, each pair around at least one entity, and what this means for the
indentation of a listing.

## Main results

* `WellNested.closings_le_openings` — no closing line comes before its opening line.
* `depthAfter_add_closings` — where that is so, the depth counts open pairs.
* `rows_append` — the depth is the indentation with which a listing goes on.
-/

namespace ValueNames

namespace Item

/-- The line that opens a guard. -/
def opening (guard : Guard) : Item := .guard ⟨guard.opening, false⟩

/-- The line that closes a guard. -/
def closing (guard : Guard) : Item := .guard ⟨guard.closing, true⟩

/--
Guard lines that come in nested pairs. Both lines of a pair belong to one guard,
and there is an entity between them.
-/
inductive WellNested : List Item → Prop
  | nil : WellNested []
  | entity {found : Entity} {rest : List Item} (hRest : WellNested rest) :
      WellNested (.entity found :: rest)
  | pair {guard : Guard} {inside rest : List Item} (hInside : WellNested inside)
      (hEntity : ∃ item ∈ inside, item.isEntity = true) (hRest : WellNested rest) :
      WellNested (opening guard :: (inside ++ closing guard :: rest))

/-- Whether an item is an opening line. -/
def opens : Item → Bool
  | guard line => !line.closing
  | entity _ => false

/-- Whether an item is a closing line. -/
def closes : Item → Bool
  | guard line => line.closing
  | entity _ => false

/-- The number of opening lines. -/
def openings (items : List Item) : Nat := items.countP opens

/-- The number of closing lines. -/
def closings (items : List Item) : Nat := items.countP closes

/-- The depth of a listing behind some items. -/
def depthAfter (depth : Nat) (items : List Item) : Nat :=
  items.foldl (fun depth item => (item.depths depth).2) depth

/-! ## Counting lines -/

section Counting

variable (items others : List Item) (guard : Guard) (found : Entity)

@[simp] theorem openings_append : openings (items ++ others) = openings items + openings others :=
  List.countP_append

@[simp] theorem closings_append : closings (items ++ others) = closings items + closings others :=
  List.countP_append

@[simp] theorem openings_opening : openings (opening guard :: items) = openings items + 1 :=
  List.countP_cons_of_pos rfl

@[simp] theorem openings_closing : openings (closing guard :: items) = openings items :=
  List.countP_cons_of_neg Bool.false_ne_true

@[simp] theorem openings_entity : openings (.entity found :: items) = openings items :=
  List.countP_cons_of_neg Bool.false_ne_true

@[simp] theorem closings_opening : closings (opening guard :: items) = closings items :=
  List.countP_cons_of_neg Bool.false_ne_true

@[simp] theorem closings_closing : closings (closing guard :: items) = closings items + 1 :=
  List.countP_cons_of_pos rfl

@[simp] theorem closings_entity : closings (.entity found :: items) = closings items :=
  List.countP_cons_of_neg Bool.false_ne_true

end Counting

/-! ## Well nested lines -/

namespace WellNested

theorem append {items others : List Item} (h : WellNested items) (h' : WellNested others) :
    WellNested (items ++ others) := by
  induction h with
  | nil => exact h'
  | entity _ ih => exact .entity ih
  | pair hInside hEntity _ _ ih =>
      rw [List.cons_append, List.append_assoc, List.cons_append]
      exact .pair hInside hEntity ih

/-- Entities alone are well nested. -/
theorem of_entities {items : List Item} (h : ∀ item ∈ items, item.isEntity = true) :
    WellNested items := by
  induction items with
  | nil => exact .nil
  | cons item rest ih =>
      have hRest := ih fun other hOther => h other (by simp [hOther])
      cases item with
      | guard line =>
          have hGuard := h (.guard line) (by simp)
          simp [isEntity] at hGuard
      | entity found => exact .entity hRest

/-- There are as many closing as opening lines. -/
theorem openings_eq_closings {items : List Item} (h : WellNested items) :
    openings items = closings items := by
  induction h with
  | nil => rfl
  | entity _ ih => simpa using ih
  | pair _ _ _ ihInside ihRest =>
      simp only [openings_opening, openings_append, openings_closing, closings_opening,
        closings_append, closings_closing]
      omega

/-- Up to any place there are no more closing than opening lines. -/
theorem closings_le_openings {items : List Item} (h : WellNested items) (front back : List Item)
    (hSplit : items = front ++ back) : closings front ≤ openings front := by
  induction h generalizing front back with
  | nil =>
      obtain ⟨rfl, _⟩ := List.append_eq_nil_iff.mp hSplit.symm
      exact Nat.le_refl _
  | @entity found rest _ ih =>
      cases front with
      | nil => exact Nat.le_refl _
      | cons first front =>
          obtain ⟨rfl, hRest⟩ := List.cons_eq_cons.mp hSplit
          simpa using ih _ _ hRest
  | @pair guard inside rest hInside _ _ ihInside ihRest =>
      cases front with
      | nil => exact Nat.le_refl _
      | cons first front =>
          obtain ⟨rfl, hRest⟩ := List.cons_eq_cons.mp hSplit
          have hEqual := hInside.openings_eq_closings
          -- The place is inside the pair, right before its end, or behind it.
          rcases List.append_eq_append_iff.mp hRest with ⟨middle, rfl, hBack⟩ | ⟨middle, hFront, _⟩
          · cases middle with
            | nil =>
                simp only [List.append_nil, openings_opening, closings_opening]
                omega
            | cons last middle =>
                obtain ⟨rfl, hBehind⟩ := List.cons_eq_cons.mp hBack
                have hRestCount := ihRest _ _ hBehind
                simp only [openings_opening, openings_append, openings_closing, closings_opening,
                  closings_append, closings_closing]
                omega
          · have hInsideCount := ihInside _ _ hFront
            simp only [openings_opening, closings_opening]
            omega

end WellNested

/-! ## The depth of a listing -/

/-- As long as every closing line finds an open pair, the depth counts open pairs. -/
theorem depthAfter_add_closings (items : List Item) (depth : Nat)
    (h : ∀ front back, items = front ++ back → closings front ≤ depth + openings front) :
    depthAfter depth items + closings items = depth + openings items := by
  induction items generalizing depth with
  | nil => rfl
  | cons item rest ih =>
      have hFirst := h [item] rest rfl
      have hRest : ∀ front back, rest = front ++ back →
          closings [item] + closings front ≤ depth + (openings [item] + openings front) := by
        intro front back hSplit
        have hFront := h (item :: front) back (by rw [hSplit]; rfl)
        rw [← List.singleton_append, closings_append, openings_append] at hFront
        exact hFront
      have hItem : (item.depths depth).2 + closings [item] = depth + openings [item] := by
        cases item with
        | entity found => rfl
        | guard line =>
            cases hLine : line.closing with
            | false => simp [depths, openings, closings, opens, closes, hLine]
            | true =>
                simp [openings, closings, opens, closes, hLine] at hFirst
                simp [depths, openings, closings, opens, closes, hLine]
                omega
      have hNext := ih (item.depths depth).2 (by
        intro front back hSplit
        have hFront := hRest front back hSplit
        omega)
      have hDepth : depthAfter depth (item :: rest) = depthAfter (item.depths depth).2 rest := rfl
      rw [← List.singleton_append, closings_append, openings_append, List.singleton_append, hDepth]
      omega

namespace WellNested

/-- A listing of nested guards meets a closing line inside a pair only. -/
theorem depthAfter_pos {items : List Item} (h : WellNested items) (front : List Item)
    (line : GuardLine) (back : List Item) (hSplit : items = front ++ .guard line :: back)
    (hClosing : line.closing = true) : 0 < depthAfter 0 front := by
  have hFront := depthAfter_add_closings front 0 (by
    intro first second hFirst
    have hPrefix := h.closings_le_openings first (second ++ .guard line :: back)
      (by rw [hSplit, hFirst, List.append_assoc])
    omega)
  have hThrough := h.closings_le_openings (front ++ [.guard line]) back
    (by rw [hSplit, List.append_assoc]; rfl)
  have hOpens : openings [.guard line] = 0 := by simp [openings, opens, hClosing]
  have hCloses : closings [.guard line] = 1 := by simp [closings, closes, hClosing]
  rw [closings_append, openings_append, hOpens, hCloses] at hThrough
  omega

/-- A listing of nested guards ends at the depth at which it began. -/
theorem depthAfter_eq {items : List Item} (h : WellNested items) : depthAfter 0 items = 0 := by
  have hAll := depthAfter_add_closings items 0 (by
    intro front back hSplit
    have hPrefix := h.closings_le_openings front back hSplit
    omega)
  have hEqual := h.openings_eq_closings
  omega

end WellNested

/-- A listing goes on at the depth behind its first items. -/
theorem rows_append (header : ScannedHeader) (depth : Nat) (front back : List Placed) :
    header.rows depth (front ++ back) =
      header.rows depth front ++
        header.rows (depthAfter depth (front.map (·.item))) back := by
  induction front generalizing depth with
  | nil => rfl
  | cons placed front ih =>
      rw [List.cons_append, ScannedHeader.rows, ScannedHeader.rows, ih]
      rfl

end Item

end ValueNames
