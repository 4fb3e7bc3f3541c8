import ValueNames.Span
import ValueNames.Text.Lowercase

/-!
# Macro groups

The macros of a group have names with a common lead and hexadecimal values.
A macro is labelled by what its name adds to the lead, in lower case.
-/

namespace ValueNames

/-- A line `#define name value`. -/
structure MacroDefinition where
  name : Text
  /-- The hexadecimal value as written. -/
  value : Text
  span : Span
deriving DecidableEq, Repr

/-- Macro definitions with a common lead of their names. -/
structure MacroGroup where
  lead : Text
  definitions : List MacroDefinition
deriving DecidableEq, Repr

namespace MacroGroup

/-- The group of some definitions, if there are any. -/
def ofDefinitions? (lead : Text) (definitions : List MacroDefinition) : Option MacroGroup :=
  if definitions = [] then none else some ⟨lead, definitions⟩

/-- A group stands where its first definition does. -/
def span? (group : MacroGroup) : Option Span := group.definitions.head?.map (·.span)

/-- The name without the lead, in lower case; a name without the lead is taken whole. -/
def label (group : MacroGroup) (definition : MacroDefinition) : Text :=
  Text.lowercase ((Text.stripLead? group.lead definition.name).getD definition.name)

end MacroGroup

end ValueNames
