import ValueNames.FileStore
import ValueNames.Settings.Document

/-!
# Settings files

The extension of a settings file decides its format: `yaml` and `yml`, written
just so, stand for YAML, and every other name for JSON.
-/

namespace ValueNames.Settings

/-- The format of the settings document at a path. -/
def Format.ofPath (path : Text) : Format :=
  match Path.extension? path with
  | some extension =>
      if extension = "yaml".toList ∨ extension = "yml".toList then .yaml else .json
  | none => .json

variable {m : Type → Type} [Monad m] [FileStore m]

/-- The valid settings in the file at a path. -/
def ofFile (path : Text) : ExceptT Fault m Settings := do
  let content ← FileStore.orFault (FileStore.readText path)
  ofExcept (ofDocument path (Format.ofPath path) content)

end ValueNames.Settings
