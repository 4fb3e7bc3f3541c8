import ValueNames.CommandLine.Run

/-!
# The program

The file store of the machine, and the entry point.
-/

namespace ValueNames

/-- The file fault for an error of the system, whose number comes with either sign. -/
def FileFault.ofError : IO.Error → FileFault
  | .noFileOrDirectory .. => notFound
  | .resourceBusy .. => busy
  | error@(.inappropriateType _ code _) =>
      let number := code.toInt32.toInt.natAbs
      if number = 20 then notDirectory
      else if number = 21 then isDirectory
      else other (toString error).toList
  | error => other (toString error).toList

/-- Tries an operation of the system. -/
def tryFiles {α : Type} (operation : IO α) : IO (Except FileFault α) := do
  match ← operation.toBaseIO with
  | .ok a => return .ok a
  | .error error => return .error (FileFault.ofError error)

/--
Writes a new file under a random name into a directory, in a number of
attempts. Only its owner can read and write it.
-/
def writeTemporary (directory : Text) (content : ByteArray) : Nat → IO Text
  | 0 => throw (.userError "no free name for a temporary file")
  | attempts + 1 => do
      let number ← IO.rand 0 999999999
      let path := Path.join directory (".tmp".toList ++ Text.ofNat number)
      match ← (IO.FS.Handle.mk (String.ofList path) .writeNew).toBaseIO with
      | .ok handle =>
        try
          IO.setAccessRights (String.ofList path) { user := { read := true, write := true } }
          handle.write content
        catch error =>
          IO.FS.removeFile (String.ofList path)
          throw error
        return path
      | .error (.alreadyExists ..) => writeTemporary directory content attempts
      | .error error => throw error

instance : FileStore IO where
  workingDirectory := tryFiles do return (← IO.currentDir).toString.toList
  read path := tryFiles (IO.FS.readBinFile (String.ofList path))
  isFile path := do
    match ← tryFiles (do (← IO.FS.realPath (String.ofList path)).metadata) with
    | .ok metadata => return metadata.type == .file
    | .error _ => return false
  createTemporary directory content := tryFiles (writeTemporary directory content 100)
  rename source target := tryFiles (IO.FS.rename (String.ofList source) (String.ofList target))
  remove path := do
    let _ ← tryFiles (IO.FS.removeFile (String.ofList path))

end ValueNames

/-- Runs the program on its arguments. -/
def main (arguments : List String) : IO UInt32 := do
  let result ← ValueNames.CommandLine.run (m := IO) (arguments.map String.toList)
  (← IO.getStdout).putStr (String.ofList result.output)
  (← IO.getStderr).putStr (String.ofList result.errors)
  return result.status.toUInt32
