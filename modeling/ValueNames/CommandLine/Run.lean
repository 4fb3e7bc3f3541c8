import ValueNames.CommandLine.Arguments
import ValueNames.CommandLine.Failure
import ValueNames.Generation
import ValueNames.Listing
import ValueNames.Settings.File

/-!
# Runs of the program

A command line is read and performed over a file store. What can be seen of a
run besides its files is its exit status and what it writes: status 0 with the
output of the command, status 1 with the report of a failure, or status 2 with
a hint when the command line cannot be understood.
-/

namespace ValueNames

/-- What can be seen of a run besides its files. -/
structure RunResult where
  status : Nat
  output : Text := []
  errors : Text := []
deriving DecidableEq, Repr

/-- What `--version` writes. -/
def versionText : Text := "strgen 0.1.0\n".toList

/-- What `--help` writes. -/
def usageText : Text :=
  ("Value-to-string helper generator for C headers\n\n" ++
    "Usage: strgen generate [OPTIONS] [OUTPUT_DIR]\n" ++
    "       strgen list [OPTIONS] [--format FORMAT]\n\n" ++
    "Options:\n" ++
    "      --root DIR              Root directory of the source tree\n" ++
    "      --header FILE           Header to scan\n" ++
    "  -c, --config FILE           Settings file (YAML or JSON)\n" ++
    "      --unguarded-outermost   Leave out the guards of outermost blocks\n" ++
    "  -f, --format FORMAT         Format of the list: text or json\n" ++
    "  -h, --help                  Print this help\n" ++
    "  -V, --version               Print the version\n").toList

variable {m : Type → Type} [Monad m] [FileStore m]

namespace SourceOptions

/-- The settings that the options ask for. -/
def settings (options : SourceOptions) : ExceptT Failure m Settings := do
  let settings ← match options.settingsFile with
    | none => pure {}
    | some path =>
      (Settings.ofFile path).adapt fun fault =>
        fault.failure.within ("failed to load config ".toList ++ path)
  return { settings with
    unguardedOutermost := settings.unguardedOutermost || options.unguardedOutermost }

/-- The root of the source tree: the given one, or one above the working directory. -/
def sourceRoot (options : SourceOptions) (settings : Settings) : ExceptT Failure m Text := do
  match options.root with
  | some root => return root
  | none =>
    match ← (FileStore.workingDirectory : m _) with
    | .error fault => throw ⟨fault.message, []⟩
    | .ok start => (FileStore.locateRoot start settings.sourceHeader).adapt Fault.failure

/-- The path of the header to scan. -/
def headerPath (options : SourceOptions) (settings : Settings) : ExceptT Failure m Text := do
  match options.header with
  | some header => return header
  | none => return Path.join (← options.sourceRoot settings) settings.sourceHeader

/-- Writes the generated file, and answers the text for the standard output. -/
def generate (options : SourceOptions) (directory : Text) : ExceptT Failure m Text := do
  let settings ← options.settings
  let header ← options.headerPath settings
  let describe (fault : Fault) : Failure :=
    fault.failure.within ("failed to generate helpers from ".toList ++ header)
  if directory = ['-'] then (generateFrom header settings).adapt describe
  else
    let target := Path.join directory settings.outputFile
    let entities ← (generateTo header target settings).adapt describe
    return "Generated ".toList ++ Text.ofNat entities ++ " helper functions from ".toList ++
      header ++ " into ".toList ++ target ++ ['\n']

/-- Answers the listing of the header, in the format of the given name. -/
def list (options : SourceOptions) (format : Text) : ExceptT Failure m Text := do
  let settings ← options.settings
  let header ← options.headerPath settings
  let scanned ← (ScannedHeader.ofFile header settings).adapt fun fault =>
    fault.failure.within ("failed to scan ".toList ++ header)
  if format = "json".toList then return scanned.jsonListing header
  else if format = "text".toList then return scanned.listing header
  else throw ⟨"unknown format: ".toList ++ format, []⟩

end SourceOptions

/-- Performs a command, and answers the text for the standard output. -/
def Command.run : Command → ExceptT Failure m Text
  | generate options directory => options.generate directory
  | list options format => options.list format

namespace CommandLine

/-- Runs the program with the given arguments. -/
def run (arguments : List Text) : m RunResult := do
  match read arguments with
  | .error misuse =>
    let errors := "error: ".toList ++ misuse.message ++ "\n\n".toList ++ usageText
    return { status := 2, errors }
  | .ok .version => return { status := 0, output := versionText }
  | .ok .help => return { status := 0, output := usageText }
  | .ok (.perform command) =>
    match ← (command.run : ExceptT Failure m Text).run with
    | .error failure => return { status := 1, errors := failure.report }
    | .ok output => return { status := 0, output }

end CommandLine

end ValueNames
