import ValueNames.Yaml.Scalar.Basic

/-!
# YAML values

What a document says once its layout is left behind. The tag of a scalar is
kept, because it can change what the scalar means.
-/

namespace ValueNames

/-- A part of a YAML document. -/
inductive Yaml
  | scalar (text : Text) (style : Yaml.Style) (tag : Option Text)
  | sequence (items : List Yaml)
  | mapping (entries : List (Yaml × Yaml))
  /-- A reference to a collection, inside of which it may stand itself. -/
  | collection (anchor : Text)

namespace Yaml

/-- What stands where nothing is written. -/
def empty : Yaml := scalar [] .plain none

end Yaml

end ValueNames
