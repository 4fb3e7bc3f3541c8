import ValueNames.Fault
import ValueNames.Text.Blank

/-!
# Settings

What to scan, and how the generated file and its functions are named. Every
setting has a default, so that a settings document only names what differs.

## Main results

* `validate_eq_ok_iff` — settings are valid exactly when none of the four
  names that the generated file cannot do without is blank.
-/

namespace ValueNames

/-- The settings of a run. -/
structure Settings where
  /-- The header to scan, relative to the root of the source tree. -/
  sourceHeader : Text := "include/mbedtls/ssl.h".toList
  /-- The name of the generated file in the output directory. -/
  outputFile : Text := "ssl_debug_helpers_generated.c".toList
  /-- The header of declarations that the generated file includes. -/
  companionHeader : Text := "ssl_debug_helpers.h".toList
  /-- The macro without which the generated file is empty. -/
  guardMacro : Text := "MBEDTLS_DEBUG_C".toList
  /-- How the names of the grouped macros begin. -/
  macroLead : Text := "MBEDTLS_TLS1_3_SIG_".toList
  /-- The name of the function for the grouped macros. -/
  macroFunction : Text := "mbedtls_ssl_sig_alg_to_str".toList
  /-- What the function of an enumeration returns for other values. -/
  enumSentinel : Text := "UNKOWN_VAULE".toList
  /-- What the function for the grouped macros returns for other values. -/
  macroSentinel : Text := "UNKOWN".toList
  /-- Leave out the guards of outermost blocks. -/
  unguardedOutermost : Bool := false
deriving DecidableEq, Repr

namespace Settings

/-- The settings that must not be blank, with the names they have in a document. -/
def required (settings : Settings) : List (Text × Text) :=
  [("macro_prefix".toList, settings.macroLead),
   ("macro_function".toList, settings.macroFunction),
   ("output_file".toList, settings.outputFile),
   ("guard_macro".toList, settings.guardMacro)]

/-- Refuses blank names; the first one in the order of `required` is reported. -/
def validate (settings : Settings) : Except Fault Unit :=
  match settings.required.find? fun (_, value) => Text.allBlank value with
  | some (name, _) => .error (.blankSetting name)
  | none => .ok ()

theorem validate_eq_ok_iff (settings : Settings) :
    settings.validate = .ok () ↔
      Text.allBlank settings.macroLead = false ∧ Text.allBlank settings.macroFunction = false ∧
        Text.allBlank settings.outputFile = false ∧ Text.allBlank settings.guardMacro = false := by
  have hNone : settings.validate = .ok () ↔
      settings.required.find? (fun (_, value) => Text.allBlank value) = none := by
    unfold validate
    generalize settings.required.find? _ = found
    cases found <;> simp
  rw [hNone, List.find?_eq_none]
  simp [required]

end Settings

end ValueNames
