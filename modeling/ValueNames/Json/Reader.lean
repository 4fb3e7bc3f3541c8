import ValueNames.Json.Token

/-!
# Reading JSON

Tokens are put together to a value with a stack of the arrays and objects that
are open, so that any depth of nesting can be read.
-/

namespace ValueNames.Json

/-- An array or object that is open, its parts so far turned around. -/
inductive Frame
  | array (elements : List Json)
  /-- An object between two members. -/
  | object (members : List (Option Text × Json))
  /-- An object inside a member. -/
  | member (members : List (Option Text × Json)) (name : Option Text)

/-- What may come next. -/
inductive Awaited
  | value
  /-- The first element of an array, or its end. -/
  | elementOrEnd
  | name
  /-- The first member of an object, or its end. -/
  | memberOrEnd
  | colon
  /-- A comma, or the end of the innermost array or object. -/
  | separator
deriving DecidableEq

/-- How far a value is read. -/
inductive Progress
  | inside (stack : List Frame) (awaited : Awaited)
  | complete (value : Json)

/-- Adds a value that is complete to what is open. -/
def supply (value : Json) : List Frame → Option Progress
  | [] => some (.complete value)
  | .array elements :: stack => some (.inside (.array (value :: elements) :: stack) .separator)
  | .member members name :: stack =>
      some (.inside (.object ((name, value) :: members) :: stack) .separator)
  | .object _ :: _ => none

/-- Reads a token. -/
def Progress.step : Progress → Token → Option Progress
  | complete _, _ => none
  | inside stack awaited, .atom value =>
      match awaited, value, stack with
      | .value, value, stack => supply value stack
      | .elementOrEnd, value, stack => supply value stack
      | .name, .string name, .object members :: stack =>
          some (.inside (.member members name :: stack) .colon)
      | .memberOrEnd, .string name, .object members :: stack =>
          some (.inside (.member members name :: stack) .colon)
      | _, _, _ => none
  | inside stack awaited, .openArray =>
      if awaited = .value ∨ awaited = .elementOrEnd then
        some (.inside (.array [] :: stack) .elementOrEnd)
      else none
  | inside stack awaited, .openObject =>
      if awaited = .value ∨ awaited = .elementOrEnd then
        some (.inside (.object [] :: stack) .memberOrEnd)
      else none
  | inside (.array elements :: stack) awaited, .closeArray =>
      if awaited = .separator ∨ awaited = .elementOrEnd then
        supply (.array elements.reverse) stack
      else none
  | inside (.object members :: stack) awaited, .closeObject =>
      if awaited = .separator ∨ awaited = .memberOrEnd then
        supply (.object members.reverse) stack
      else none
  | inside (.array elements :: stack) .separator, .comma =>
      some (.inside (.array elements :: stack) .value)
  | inside (.object members :: stack) .separator, .comma =>
      some (.inside (.object members :: stack) .name)
  | inside stack .colon, .colon => some (.inside stack .value)
  | inside _ _, _ => none

/-- The value, if one is read completely. -/
def Progress.value? : Progress → Option Json
  | inside _ _ => none
  | complete value => some value

/-- The value that some tokens write. -/
def ofTokens? (tokens : List Token) : Option Json :=
  (tokens.foldlM Progress.step (.inside [] .value)).bind Progress.value?

/-- The value that a text writes. -/
def read? (s : Text) : Option Json := (tokens? s).bind ofTokens?

end ValueNames.Json
