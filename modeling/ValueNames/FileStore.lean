import ValueNames.Fault
import ValueNames.Path
import ValueNames.Text.Bytes

/-!
# File stores

What a run needs of a file system is a short list of operations. They are
abstract, so that a run means the same over the files of a machine and over a
tree of files that is a value.

A file is replaced through a temporary file in the directory of the target:
the new content is written there first, and takes the place of the target in
one step. Until that step the target is untouched, and when it fails the
temporary file is removed again.
-/

namespace ValueNames

/-- The operations on files that a run needs. -/
class FileStore (m : Type → Type) where
  /-- The absolute path at which relative paths start. -/
  workingDirectory : m (Except FileFault Text)
  /-- The content of a file. -/
  read (path : Text) : m (Except FileFault ByteArray)
  /-- Whether a path leads to a file. -/
  isFile (path : Text) : m Bool
  /-- Writes a new file with a name of its own into a directory and answers its path. -/
  createTemporary (directory : Text) (content : ByteArray) : m (Except FileFault Text)
  /-- Moves a file to a path, where it takes the place of a file that is there. -/
  rename (source target : Text) : m (Except FileFault Unit)
  /-- Removes a file. -/
  remove (path : Text) : m Unit

namespace FileStore

variable {m : Type → Type} [Monad m] [FileStore m]

/-- The text in a file; its bytes have to be UTF-8. -/
def readText (path : Text) : m (Except FileFault Text) := do
  match ← read path with
  | .error fault => return .error fault
  | .ok content =>
    match Text.ofBytes? content with
    | none => return .error .notText
    | some text => return .ok text

/-- The directory of a path; a path without one lies in the working directory. -/
def directoryOf (path : Text) : Text :=
  match Path.parent? path with
  | none => ['.']
  | some directory => if directory = [] then ['.'] else directory

/-- Replaces a file, or leaves everything as it is. -/
def replace (path content : Text) : m (Except FileFault Unit) := do
  match ← createTemporary (directoryOf path) (Text.bytes content) with
  | .error fault => return .error fault
  | .ok temporary =>
    match ← rename temporary path with
    | .error fault =>
      remove temporary
      return .error fault
    | .ok () => return .ok ()

/-- A step of a run that fails with the fault of a file. -/
def orFault {α : Type} (step : m (Except FileFault α)) : ExceptT Fault m α :=
  ExceptT.mk do return (← step).mapError Fault.file

/--
The first directory of `start` and those above it in which the path `header`
leads to a file.
-/
def locateRoot (start header : Text) : ExceptT Fault m Text := do
  match ← (Path.ancestors start).findM? fun directory =>
      (isFile (Path.join directory header) : m Bool) with
  | some directory => return directory
  | none => throw (.headerNotFound header start)

end FileStore

end ValueNames
