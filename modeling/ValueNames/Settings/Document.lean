import ValueNames.Json.Reader
import ValueNames.Settings.Field
import ValueNames.Yaml.Document

/-!
# Settings documents

Settings are written as a JSON object, as a JSON array in the order of the
settings, or as a YAML mapping. A YAML document without content stands for the
defaults.

## Main results

* `ofDocument_validate` — settings that were read are valid.
-/

namespace ValueNames.Settings

/-! ## JSON -/

/-- A JSON string is a text, and a truth value a flag. -/
def Reading.ofJson : Json → Reading
  | .string content => ⟨content, none⟩
  | .bool b => ⟨none, some b⟩
  | _ => ⟨none, none⟩

/-- The name of a member, which has to be a text, and the reading of its value. -/
def namedOfMember? : Option Text × Json → Option (Text × Reading)
  | (name, value) => name.map fun name => (name, Reading.ofJson value)

/-- The settings that a JSON value gives. -/
def ofJson? : Json → Option Settings
  | .object members => (members.mapM namedOfMember?).bind ofNamed?
  | .array elements => ofListed? (elements.map Reading.ofJson)
  | _ => none

/-! ## YAML -/

/-- The words for truth values. -/
def flagOfWord? (word : Text) : Option Bool :=
  if ["true".toList, "True".toList, "TRUE".toList].contains word then some true
  else if ["false".toList, "False".toList, "FALSE".toList].contains word then some false
  else none

/-- Whether a YAML scalar can be a flag: it is plain, or literal and tagged as a truth value. -/
def mayBeFlag : Yaml.Style → Option Text → Bool
  | .plain, _ => true
  | .literal, tag => tag = some "tag:yaml.org,2002:bool".toList
  | _, _ => false

/-- A YAML scalar is a text, and a flag if it is a word for a truth value. -/
def Reading.ofYaml : Yaml → Reading
  | .scalar text style tag => ⟨some text, if mayBeFlag style tag then flagOfWord? text else none⟩
  | _ => ⟨none, none⟩

/-- The key of an entry, which has to be a scalar, and the reading of its value. -/
def namedOfEntry? : Yaml × Yaml → Option (Text × Reading)
  | (.scalar name _ _, value) => some (name, Reading.ofYaml value)
  | _ => none

/-- The settings that a YAML document gives. -/
def ofYaml? : Yaml → Option Settings
  | .mapping entries => (entries.mapM namedOfEntry?).bind ofNamed?
  | .scalar [] .plain _ => some {}
  | _ => none

/-! ## Documents -/

/-- The formats of settings documents. -/
inductive Format
  | json
  | yaml
deriving DecidableEq, Repr

/-- The settings that a text writes in a format. -/
def read? (format : Format) (s : Text) : Option Settings :=
  match format with
  | .json => (Json.read? s).bind ofJson?
  | .yaml => (Yaml.read? s).bind ofYaml?

/-- The valid settings of the document at a path with the given content. -/
def ofDocument (path : Text) (format : Format) (content : Text) : Except Fault Settings :=
  match read? format content with
  | none => .error (.malformedSettings path)
  | some settings => settings.validate.map fun _ => settings

theorem ofDocument_validate {path content : Text} {format : Format} {settings : Settings}
    (h : ofDocument path format content = .ok settings) : settings.validate = .ok () := by
  unfold ofDocument at h
  split at h
  · cases h
  · obtain ⟨_, hValid, rfl⟩ := map_eq_ok_iff.mp h
    exact hValid

end ValueNames.Settings
