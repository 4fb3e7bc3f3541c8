import ValueNames.Conditional.Guard
import ValueNames.Proofs.Item.Map
import ValueNames.Proofs.Text.Returns

/-!
# What is found in a text without its carriage returns

Without the carriage returns of a text everything found in it stands at another offset.
Names, values and bodies hold no carriage returns, and of the texts of guards they are
left out.

## Main results

* `Guard.opening_bare`, `Guard.closing_bare` — the lines of a guard.
* `Placed.ordered_bareIn` — items keep their order.
-/

namespace ValueNames

open Text

/-- Where a span of a text is without the carriage returns of the text. -/
def Span.bareIn (source : Text) (span : Span) : Span :=
  ⟨bareOffset source span.start, bareOffset source span.stop⟩

def MacroDefinition.bareIn (source : Text) (definition : MacroDefinition) : MacroDefinition :=
  { definition with span := definition.span.bareIn source }

def MacroGroup.bareIn (source : Text) (group : MacroGroup) : MacroGroup :=
  { group with definitions := group.definitions.map (MacroDefinition.bareIn source) }

def Enumeration.bareIn (source : Text) (declared : Enumeration) : Enumeration :=
  { declared with span := declared.span.bareIn source }

def Entity.bareIn (source : Text) : Entity → Entity
  | .enumeration declared => .enumeration (declared.bareIn source)
  | .macroGroup group => .macroGroup (group.bareIn source)

def Guard.bare (guard : Guard) : Guard := { guard with condition := Text.bare guard.condition }

def Item.bareIn (source : Text) : Item → Item
  | .guard line => .guard { line with text := Text.bare line.text }
  | .entity found => .entity (found.bareIn source)

def Placed.bareIn (source : Text) (placed : Placed) : Placed :=
  ⟨bareOffset source placed.offset, placed.item.bareIn source⟩

def Block.bareIn (source : Text) (block : Block) : Block :=
  ⟨block.guard.bare, block.opened.bareIn source⟩

/-- The same fault in the text without carriage returns. -/
def Fault.bareIn (source : Text) : Fault → Fault
  | .neverClosed line guard => .neverClosed line guard.bare
  | .unnamedEnum span => .unnamedEnum (span.bareIn source)
  | .emptyEnum span => .emptyEnum (span.bareIn source)
  | .outOfText span => .outOfText (span.bareIn source)
  | fault => fault

/-- A result for a text, told of the text without carriage returns. -/
abbrev bareResult {α β : Type} (source : Text) (f : α → β) :
    Except Fault α → Except Fault β :=
  mapResult (Fault.bareIn source) f

/-! ## Guards -/

/-- What is written around a condition holds no carriage returns. -/
theorem bare_around {lead tail : Text} (hLead : '\r' ∉ lead) (hTail : '\r' ∉ tail)
    (condition : Text) :
    Text.bare (lead ++ condition ++ tail) = lead ++ Text.bare condition ++ tail := by
  rw [bare_append, bare_append, bare_of_not_mem hLead, bare_of_not_mem hTail]

theorem Guard.complement_bare (guard : Guard) :
    guard.bare.complement = guard.complement.bare := by
  obtain ⟨opener, condition⟩ := guard
  cases opener with
  | expression =>
      have hNegated : Text.bare ("!( ".toList ++ condition ++ " )".toList) = _ :=
        bare_around (by decide) (by decide) condition
      exact congrArg (Guard.mk .expression) hNegated.symm
  | defined => rfl
  | undefined => rfl

theorem Guard.opening_bare (guard : Guard) : guard.bare.opening = Text.bare guard.opening := by
  obtain ⟨opener, condition⟩ := guard
  have hWord : '\r' ∉ '#' :: opener.word ++ [' '] := by cases opener <;> decide
  have hText := bare_around hWord (List.not_mem_nil) condition
  simpa [opening, Guard.bare] using hText.symm

theorem Guard.closing_bare (guard : Guard) : guard.bare.closing = Text.bare guard.closing := by
  obtain ⟨opener, condition⟩ := guard
  have hComment : ∀ text : Text, Text.bare ("#endif /* ".toList ++ text ++ " */".toList) =
      "#endif /* ".toList ++ Text.bare text ++ " */".toList :=
    bare_around (by decide) (by decide)
  cases opener with
  | expression => exact (hComment condition).symm
  | defined =>
      have hTest : Text.bare ("defined(".toList ++ condition ++ ")".toList) = _ :=
        bare_around (by decide) (by decide) condition
      refine ((hComment _).trans ?_).symm
      rw [hTest]
      rfl
  | undefined =>
      have hTest : Text.bare ("!defined(".toList ++ condition ++ ")".toList) = _ :=
        bare_around (by decide) (by decide) condition
      refine ((hComment _).trans ?_).symm
      rw [hTest]
      rfl

theorem Block.alternative_bareIn (source : Text) (block : Block) (elseLine : Span) :
    (block.bareIn source).alternative (elseLine.bareIn source) =
      (block.alternative elseLine).bareIn source := by
  rw [alternative, bareIn, Guard.complement_bare]
  rfl

/-! ## Order -/

theorem MacroGroup.span?_bareIn (source : Text) (group : MacroGroup) :
    (group.bareIn source).span? = group.span?.map (Span.bareIn source) := by
  rw [span?, span?, bareIn, List.head?_map, Option.map_map, Option.map_map]
  rfl

@[simp] theorem Item.isEntity_bareIn (source : Text) (item : Item) :
    (item.bareIn source).isEntity = item.isEntity := by
  cases item with
  | guard line => rfl
  | entity found => rfl

/-- Items that do not stand before a carriage return keep their order. -/
theorem Placed.ordered_bareIn {source : Text} {items : List Placed}
    (hSolid : ∀ placed ∈ items, IsSolid source placed.offset) :
    ordered (items.map (bareIn source)) = (ordered items).map (bareIn source) := by
  refine ordered_map (fun placed => Item.isEntity_bareIn source placed.item) ?_
  intro a ha b hb
  show bareOffset source a.offset ≤ bareOffset source b.offset ↔ _
  constructor
  · intro h
    apply Nat.le_of_not_lt
    intro hLess
    have hApart := bareOffset_lt (hSolid b hb) (hSolid a ha).isBoundary hLess
    omega
  · exact bareOffset_mono (hSolid a ha).isBoundary (hSolid b hb).isBoundary

end ValueNames
