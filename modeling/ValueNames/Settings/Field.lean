import ValueNames.Settings.Basic

/-!
# Fields of a settings document

A document gives settings by name. What a document holds for a name is taken
as a text or as a flag, whichever the setting needs; a name given twice is
refused, and names that no setting has are passed over.

## Main results

* `ofName?_name` — every setting is found by its own name.
-/

namespace ValueNames.Settings

/-- The settings, in the order in which a document without names lists them. -/
inductive Field
  | sourceHeader
  | outputFile
  | companionHeader
  | guardMacro
  | macroLead
  | macroFunction
  | enumSentinel
  | macroSentinel
  | unguardedOutermost
deriving DecidableEq, Repr

namespace Field

/-- All settings. -/
def all : List Field :=
  [sourceHeader, outputFile, companionHeader, guardMacro, macroLead, macroFunction,
   enumSentinel, macroSentinel, unguardedOutermost]

/-- The name of a setting in a document. -/
def name : Field → Text
  | sourceHeader => "source_header".toList
  | outputFile => "output_file".toList
  | companionHeader => "companion_header".toList
  | guardMacro => "guard_macro".toList
  | macroLead => "macro_prefix".toList
  | macroFunction => "macro_function".toList
  | enumSentinel => "enum_sentinel".toList
  | macroSentinel => "macro_sentinel".toList
  | unguardedOutermost => "unguarded_outermost".toList

/-- The setting of a name. -/
def ofName? (t : Text) : Option Field := all.find? (·.name = t)

theorem ofName?_name (field : Field) : ofName? field.name = some field := by
  cases field <;> decide

end Field

/-- How a part of a document can be understood. -/
structure Reading where
  text? : Option Text
  flag? : Option Bool

/-- The settings with one of them changed, if the reading suits it. -/
def assign? (settings : Settings) (reading : Reading) : Field → Option Settings
  | .sourceHeader => reading.text?.map fun t => { settings with sourceHeader := t }
  | .outputFile => reading.text?.map fun t => { settings with outputFile := t }
  | .companionHeader => reading.text?.map fun t => { settings with companionHeader := t }
  | .guardMacro => reading.text?.map fun t => { settings with guardMacro := t }
  | .macroLead => reading.text?.map fun t => { settings with macroLead := t }
  | .macroFunction => reading.text?.map fun t => { settings with macroFunction := t }
  | .enumSentinel => reading.text?.map fun t => { settings with enumSentinel := t }
  | .macroSentinel => reading.text?.map fun t => { settings with macroSentinel := t }
  | .unguardedOutermost => reading.flag?.map fun b => { settings with unguardedOutermost := b }

/-- Takes over named readings, where the settings in `seen` have been given before. -/
def assignNamed? (settings : Settings) (seen : List Field) :
    List (Text × Reading) → Option Settings
  | [] => some settings
  | (name, reading) :: rest =>
      match Field.ofName? name with
      | none => assignNamed? settings seen rest
      | some field =>
          if field ∈ seen then none
          else
            (settings.assign? reading field).bind fun settings =>
              assignNamed? settings (field :: seen) rest

/-- Takes over readings without names, in the order of the settings. -/
def assignListed? (settings : Settings) : List Field → List Reading → Option Settings
  | _, [] => some settings
  | [], _ :: _ => none
  | field :: fields, reading :: rest =>
      (settings.assign? reading field).bind fun settings => assignListed? settings fields rest

/-- The settings of a document with names, and the defaults for the others. -/
def ofNamed? (readings : List (Text × Reading)) : Option Settings :=
  assignNamed? {} [] readings

/-- The settings of a document without names, and the defaults for those it leaves out. -/
def ofListed? (readings : List Reading) : Option Settings := assignListed? {} Field.all readings

end ValueNames.Settings
