import ValueNames.FileStore
import ValueNames.Output.File

/-!
# Generating from header files

A header file is read, scanned and turned into the text of the generated file,
all before anything is written. A fault therefore leaves the files as they are.
-/

namespace ValueNames

variable {m : Type → Type} [Monad m] [FileStore m]

/-- Scans the header file at a path. -/
def ScannedHeader.ofFile (path : Text) (settings : Settings) : ExceptT Fault m ScannedHeader := do
  let text ← FileStore.orFault (FileStore.readText path)
  ofExcept (ScannedHeader.ofText text settings)

/-- The generated file for the header file at a path. -/
def generateFrom (header : Text) (settings : Settings) : ExceptT Fault m Text := do
  let scanned ← ScannedHeader.ofFile header settings
  return outputFileOf settings scanned.items

/--
Writes the generated file for the header file at a path to a target, and
answers the number of entities in it.
-/
def generateTo (header target : Text) (settings : Settings) : ExceptT Fault m Nat := do
  let scanned ← ScannedHeader.ofFile header settings
  FileStore.orFault (FileStore.replace target (outputFileOf settings scanned.items))
  return scanned.entityCount

end ValueNames
