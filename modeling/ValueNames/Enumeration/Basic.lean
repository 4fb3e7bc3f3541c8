import ValueNames.Fault
import ValueNames.Text.Blank

/-!
# Enumerations

An enumeration is known by its typedef name, the name after the closing brace, or
else by its tag, the name after the keyword. Its body is read line by line:
directive lines are kept as written, every other line holds enumerators
between commas, each named by its first word.
-/

namespace ValueNames

/-- An entry of the body of an enumeration. -/
inductive BodyLine
  | member (name : Text)
  /-- A directive line, kept as written. -/
  | directive (text : Text)
deriving DecidableEq, Repr

/-- A declaration `enum tag { body } name;`. -/
structure Enumeration where
  name : Text
  /-- The type of the values, as it is written in a parameter list. -/
  typeName : Text
  /-- Enumerators and directive lines in source order. -/
  body : List BodyLine
  span : Span
deriving DecidableEq, Repr

namespace Enumeration

/-- The enumerator in a field between commas, if the field is not blank. -/
def memberOfField? (field : Text) : Option BodyLine :=
  match Text.firstWord field with
  | [] => none
  | name => some (.member name)

/-- The entries of one line of a body. -/
def entriesOfLine (line : Text) : List BodyLine :=
  match Text.trim line with
  | [] => []
  | '#' :: rest => [.directive ('#' :: rest)]
  | fields => (Text.splitOn ',' fields).filterMap memberOfField?

/-- The entries of a body. -/
def entries (body : Text) : List BodyLine := (Text.lines body).flatMap entriesOfLine

/--
The enumeration with the given tag, body text and typedef name; tag and typedef name are
empty where they are missing. One of them is needed, and so is a body.
-/
def ofParts (tag body typedefName : Text) (span : Span) : Except Fault Enumeration :=
  if tag = [] ∧ typedefName = [] then .error (.unnamedEnum span)
  else if Text.allBlank body then .error (.emptyEnum span)
  else if typedefName = [] then .ok ⟨tag, "enum ".toList ++ tag, entries body, span⟩
  else .ok ⟨typedefName, typedefName, entries body, span⟩

/-- The enumerators, without the directive lines. -/
def members (enumeration : Enumeration) : List Text :=
  enumeration.body.filterMap fun
    | .member name => some name
    | .directive _ => none

end Enumeration

end ValueNames
