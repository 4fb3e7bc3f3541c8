import ValueNames.Json.Value

/-!
# Printing JSON

A value is printed over several lines: each element and each member has a line
of its own, two spaces deeper than its array or object. Empty arrays and
objects stay on one line. Only quotes, backslashes and control characters are
escaped.
-/

namespace ValueNames.Json

/-- A lower-case hexadecimal digit. -/
def hexDigit (n : Nat) : Char := Nat.digitChar n

/-- A character as it is written in a string. -/
def escape (c : Char) : Text :=
  match c with
  | '"' => ['\\', '"']
  | '\\' => ['\\', '\\']
  | '\x08' => ['\\', 'b']
  | '\x0c' => ['\\', 'f']
  | '\n' => ['\\', 'n']
  | '\r' => ['\\', 'r']
  | '\t' => ['\\', 't']
  | c =>
      if c.toNat < 0x20 then
        ['\\', 'u', '0', '0', hexDigit (c.toNat / 16), hexDigit (c.toNat % 16)]
      else [c]

/-- A string in quotes; where there is no text, half of a surrogate pair is named. -/
def quote : Option Text → Text
  | some t => '"' :: t.flatMap escape ++ ['"']
  | none => "\"\\ud800\"".toList

/-- A new line at some depth. -/
def newLine (depth : Nat) : Text := '\n' :: List.replicate (2 * depth) ' '

/-- Parts between brackets, each on a line of its own. -/
def bracket (opening closing : Char) (depth : Nat) (parts : List Text) : Text :=
  if parts = [] then [opening, closing]
  else
    opening :: newLine (depth + 1) ++ Text.join (',' :: newLine (depth + 1)) parts ++
      newLine depth ++ [closing]

mutual

/-- A value that starts at some depth. -/
def printAt (depth : Nat) : Json → Text
  | null => "null".toList
  | bool true => "true".toList
  | bool false => "false".toList
  | number lexeme => lexeme
  | string content => quote content
  | array elements => bracket '[' ']' depth (printElements (depth + 1) elements)
  | object members => bracket '\x7b' '\x7d' depth (printMembers (depth + 1) members)

/-- The elements of an array. -/
def printElements (depth : Nat) : List Json → List Text
  | [] => []
  | element :: elements => printAt depth element :: printElements depth elements

/-- The members of an object. -/
def printMembers (depth : Nat) : List (Option Text × Json) → List Text
  | [] => []
  | (name, value) :: members =>
      (quote name ++ ": ".toList ++ printAt depth value) :: printMembers depth members

end

/-- The printed form of a value. -/
def print (value : Json) : Text := printAt 0 value

end ValueNames.Json
