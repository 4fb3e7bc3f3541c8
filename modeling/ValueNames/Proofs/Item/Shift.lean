import ValueNames.Conditional.Guard
import ValueNames.Proofs.Item.Map

/-!
# What stands further behind

If a text stands behind another one, what is found in it has greater offsets and what is
wrong with it is reported for a greater line. Nothing else about it changes.

## Main results

* `shiftResult_mapM` — a traversal of what stands further behind.
* `Placed.ordered_shift` — items keep their order.
-/

namespace ValueNames

def MacroDefinition.shift (base : Nat) (definition : MacroDefinition) : MacroDefinition :=
  { definition with span := definition.span.shift base }

def MacroGroup.shift (base : Nat) (group : MacroGroup) : MacroGroup :=
  { group with definitions := group.definitions.map (MacroDefinition.shift base) }

def Enumeration.shift (base : Nat) (declared : Enumeration) : Enumeration :=
  { declared with span := declared.span.shift base }

def Entity.shift (base : Nat) : Entity → Entity
  | .enumeration declared => .enumeration (declared.shift base)
  | .macroGroup group => .macroGroup (group.shift base)

/-- Guard lines hold no offsets. -/
def Item.shift (base : Nat) : Item → Item
  | .guard line => .guard line
  | .entity found => .entity (found.shift base)

def Placed.shift (base : Nat) (placed : Placed) : Placed :=
  ⟨placed.offset + base, placed.item.shift base⟩

def Block.shift (base : Nat) (block : Block) : Block :=
  { block with opened := block.opened.shift base }

/-- A fault in a text behind another one of `base` bytes, among them `newlines` line feeds. -/
def Fault.shift (base newlines : Nat) : Fault → Fault
  | .strayCloser line closer => .strayCloser (line + newlines) closer
  | .neverClosed line guard => .neverClosed (line + newlines) guard
  | .unnamedEnum span => .unnamedEnum (span.shift base)
  | .emptyEnum span => .emptyEnum (span.shift base)
  | .outOfText span => .outOfText (span.shift base)
  | fault => fault

theorem Span.shift_shift (span : Span) (low high : Nat) :
    (span.shift low).shift high = span.shift (low + high) := by
  simp only [Span.shift, Nat.add_assoc]

theorem MacroGroup.span?_shift (base : Nat) (group : MacroGroup) :
    (group.shift base).span? = group.span?.map (·.shift base) := by
  rw [span?, span?, shift, List.head?_map, Option.map_map, Option.map_map]
  rfl

@[simp] theorem Item.isEntity_shift (base : Nat) (item : Item) :
    (item.shift base).isEntity = item.isEntity := by
  cases item with
  | guard line => rfl
  | entity entity => rfl

/-! ## Results -/

/-- A result for a text that stands further behind. -/
def shiftResult {α β : Type} (base newlines : Nat) (f : α → β) :
    Except Fault α → Except Fault β
  | .ok a => .ok (f a)
  | .error fault => .error (fault.shift base newlines)

section Results

variable {α β γ δ : Type} (base newlines : Nat) {f : α → β} {g : γ → δ}

theorem shiftResult_eq (f : α → β) :
    shiftResult base newlines f = mapResult (Fault.shift base newlines) f := by
  funext result
  cases result with
  | error fault => rfl
  | ok a => rfl

theorem shiftResult_bind {next : α → Except Fault γ} {next' : β → Except Fault δ}
    (h : ∀ a, next' (f a) = shiftResult base newlines g (next a)) (result : Except Fault α) :
    (shiftResult base newlines f result).bind next' =
      shiftResult base newlines g (result.bind next) := by
  rw [shiftResult_eq] at h ⊢
  rw [shiftResult_eq]
  exact mapResult_bind fun a _ => h a

theorem shiftResult_map {next : α → γ} {next' : β → δ} (h : ∀ a, next' (f a) = g (next a))
    (result : Except Fault α) :
    (shiftResult base newlines f result).map next' =
      shiftResult base newlines g (result.map next) := by
  rw [shiftResult_eq, shiftResult_eq]
  exact mapResult_map fun a _ => h a

/-- What is wrong with one element is wrong with it further behind. -/
theorem shiftResult_mapM {next : α → Except Fault γ} {next' : β → Except Fault δ} {xs : List α}
    (h : ∀ x ∈ xs, next' (f x) = shiftResult base newlines g (next x)) :
    (xs.map f).mapM next' = shiftResult base newlines (List.map g) (xs.mapM next) := by
  rw [shiftResult_eq] at h ⊢
  exact mapResult_mapM h

end Results

/-! ## Order -/

/-- Items that stand further behind are ordered in the same way. -/
theorem Placed.ordered_shift (base : Nat) (items : List Placed) :
    ordered (items.map (shift base)) = (ordered items).map (shift base) := by
  refine ordered_map (fun placed => Item.isEntity_shift base placed.item) ?_
  intro a _ b _
  exact Nat.add_le_add_iff_right

end ValueNames
