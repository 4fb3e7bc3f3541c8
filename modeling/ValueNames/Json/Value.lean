import ValueNames.Text.Basic

/-!
# JSON values

A JSON value keeps the members of an object in order and with repeats, and a
number as it is written. A string can name half of a surrogate pair; it is
then well formed, but there is no text that it stands for.
-/

namespace ValueNames

/-- A JSON value. -/
inductive Json
  | null
  | bool (value : Bool)
  /-- A number as it is written. -/
  | number (lexeme : Text)
  /-- A string and the text it stands for, if there is one. -/
  | string (content : Option Text)
  | array (elements : List Json)
  | object (members : List (Option Text × Json))

namespace Json

/-- The string of a text. -/
def ofText (t : Text) : Json := string (some t)

/-- The number of a natural number. -/
def ofNat (n : Nat) : Json := number (Text.ofNat n)

/-- The object with the given names, which are listed in the order of the members. -/
def ofMembers (members : List (Text × Json)) : Json :=
  object (members.map fun (name, value) => (some name, value))

end Json

end ValueNames
