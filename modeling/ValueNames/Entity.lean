import ValueNames.Enumeration.Basic
import ValueNames.MacroGroup.Basic

/-!
# Entities

What a header contributes to the generated file: enumerations and macro groups.
-/

namespace ValueNames

/-- Something a value-to-name function is generated for. -/
inductive Entity
  | enumeration (declared : Enumeration)
  | macroGroup (group : MacroGroup)
deriving DecidableEq, Repr

namespace Entity

/-- The place of an entity in the source; a group without definitions has none. -/
def span? : Entity → Option Span
  | .enumeration declared => some declared.span
  | .macroGroup group => group.span?

/-- A short description for listings. -/
def describe : Entity → Text
  | .enumeration declared =>
      "enum ".toList ++ declared.name ++ " (".toList ++
        Text.ofNat declared.members.length ++ " members)".toList
  | .macroGroup group =>
      "macro group ".toList ++ group.lead ++ "* (".toList ++
        Text.ofNat group.definitions.length ++ " definitions)".toList

end Entity

end ValueNames
