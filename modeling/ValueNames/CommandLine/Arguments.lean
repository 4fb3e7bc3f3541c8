import ValueNames.Text.Lines

/-!
# Arguments

The command line names one of two commands, and after it come options, and for
`generate` a directory. An option with a value is written `--option VALUE` or
`--option=VALUE`; those that have a letter also `-o VALUE`, `-oVALUE` and
`-o=VALUE`. A value of its own may not begin with a dash, unless it is the
dash alone. Nothing after `--` is an option. Each option is given once at
most.

## Main results

* `set_eq_ok_iff` — an option is accepted once, and a path is never empty.
-/

namespace ValueNames

/-! ## Requests -/

/-- The options that say what is scanned, and with which settings. -/
structure SourceOptions where
  /-- The root of the source tree. -/
  root : Option Text := none
  /-- The header to scan, whatever the root and the settings say. -/
  header : Option Text := none
  /-- The path of the settings file. -/
  settingsFile : Option Text := none
  /-- Leave out the guards of outermost blocks. -/
  unguardedOutermost : Bool := false
deriving DecidableEq, Repr

/-- What is to be done with the header. -/
inductive Command
  /-- Write the generated file into a directory; a dash stands for the standard output. -/
  | generate (source : SourceOptions) (directory : Text)
  /-- List what is found in the header, in the format of the given name. -/
  | list (source : SourceOptions) (format : Text)
deriving DecidableEq, Repr

/-- What a command line asks for. -/
inductive Request
  | perform (command : Command)
  | version
  | help
deriving DecidableEq, Repr

/-- Why a command line cannot be understood. -/
inductive Misuse
  | noCommand
  | unknownCommand (word : Text)
  | unknownOption (argument : Text)
  | missingValue (option : Text)
  | emptyValue (option : Text)
  | repeated (option : Text)
  /-- A value for an option that takes none. -/
  | unwantedValue (option : Text)
  | unexpected (argument : Text)
deriving DecidableEq, Repr

/-- The wording of a misuse. -/
def Misuse.message : Misuse → Text
  | noCommand => "a command is required".toList
  | unknownCommand word => "unknown command: ".toList ++ word
  | unknownOption argument => "unknown option: ".toList ++ argument
  | missingValue option => "a value is required for --".toList ++ option
  | emptyValue option => "the value for --".toList ++ option ++ " must not be empty".toList
  | repeated option => "--".toList ++ option ++ " is given more than once".toList
  | unwantedValue option => "--".toList ++ option ++ " takes no value".toList
  | unexpected argument => "unexpected argument: ".toList ++ argument

namespace CommandLine

/-! ## Single arguments -/

/-- The forms of an argument. -/
inductive Argument
  /-- The mark after which nothing is an option. -/
  | mark
  /-- An option by its name, and what follows an equals sign. -/
  | long (name : Text) (value : Option Text)
  /-- An option by its letter, and what follows the letter. -/
  | short (letter : Char) (rest : Text)
  /-- Anything else, a lone dash included. -/
  | plain (text : Text)
deriving DecidableEq, Repr

/-- The part of a text before the first equals sign, and the part after it. -/
def splitEquals (s : Text) : Text × Option Text :=
  match s.dropWhile (· ≠ '=') with
  | [] => (s, none)
  | _ :: value => (s.takeWhile (· ≠ '='), some value)

/-- The form of an argument. -/
def Argument.ofText : Text → Argument
  | ['-', '-'] => mark
  | '-' :: '-' :: option => long (splitEquals option).1 (splitEquals option).2
  | '-' :: letter :: rest => short letter rest
  | text => plain text

/-! ## Options -/

/-- The commands by name. -/
inductive Verb
  | generate
  | list
deriving DecidableEq, Repr

/-- The command of a name. -/
def Verb.ofText? (word : Text) : Option Verb :=
  if word = "generate".toList then some .generate
  else if word = "list".toList then some .list
  else none

/-- The options that take a value. -/
inductive Parameter
  | root
  | header
  | config
  | format
deriving DecidableEq, Repr

namespace Parameter

/-- The name of an option. -/
def name : Parameter → Text
  | root => "root".toList
  | header => "header".toList
  | config => "config".toList
  | format => "format".toList

/-- The letter of an option. -/
def letter? : Parameter → Option Char
  | config => some 'c'
  | format => some 'f'
  | _ => none

/-- Whether the value of an option is a path, which must not be empty. -/
def isPath : Parameter → Bool
  | format => false
  | _ => true

end Parameter

/-- The options with values of a command. -/
def Verb.parameters : Verb → List Parameter
  | generate => [.root, .header, .config]
  | list => [.root, .header, .config, .format]

/-- What the arguments so far have given. -/
structure Given where
  values : List (Parameter × Text) := []
  unguardedOutermost : Bool := false
  directory : Option Text := none
deriving DecidableEq, Repr

namespace Given

/-- Takes the value of an option. -/
def set (given : Given) (parameter : Parameter) (value : Text) : Except Misuse Given :=
  if (given.values.lookup parameter).isSome then .error (.repeated parameter.name)
  else if parameter.isPath ∧ value = [] then .error (.emptyValue parameter.name)
  else .ok { given with values := (parameter, value) :: given.values }

theorem set_eq_ok_iff {given after : Given} {parameter : Parameter} {value : Text} :
    given.set parameter value = .ok after ↔
      given.values.lookup parameter = none ∧ (parameter.isPath = true → value ≠ []) ∧
        after = { given with values := (parameter, value) :: given.values } := by
  unfold set
  cases hLookup : given.values.lookup parameter with
  | some found => simp
  | none => by_cases hPath : parameter.isPath = true ∧ value = [] <;> grind

/-- Takes the flag that leaves out outermost guards. -/
def setUnguarded (given : Given) : Except Misuse Given :=
  if given.unguardedOutermost then .error (.repeated "unguarded-outermost".toList)
  else .ok { given with unguardedOutermost := true }

/-- Takes an argument that is no option; only `generate` has one, and only once. -/
def setDirectory (verb : Verb) (given : Given) (argument : Text) : Except Misuse Given :=
  match verb, given.directory with
  | .generate, none => .ok { given with directory := some argument }
  | _, _ => .error (.unexpected argument)

/-- The command for what was given; what was not given has a default. -/
def command (given : Given) (verb : Verb) : Command :=
  let source : SourceOptions :=
    { root := given.values.lookup .root
      header := given.values.lookup .header
      settingsFile := given.values.lookup .config
      unguardedOutermost := given.unguardedOutermost }
  match verb with
  | .generate => .generate source (given.directory.getD "library".toList)
  | .list => .list source ((given.values.lookup .format).getD "text".toList)

end Given

/-! ## Command lines -/

/-- What an argument does to what was given before it. -/
inductive Step
  | given (given : Given)
  /-- The value of an option is the next argument. -/
  | awaiting (given : Given) (parameter : Parameter)
  /-- What follows are no options. -/
  | marked
  | help

/-- The effect of an argument where options may stand. -/
def step (verb : Verb) (given : Given) (argument : Text) : Except Misuse Step :=
  match Argument.ofText argument with
  | .mark => .ok .marked
  | .plain text => (given.setDirectory verb text).map .given
  | .long name value =>
    match verb.parameters.find? (·.name = name), value with
    | some parameter, some value => (given.set parameter value).map .given
    | some parameter, none => .ok (.awaiting given parameter)
    | none, _ =>
      if name = "unguarded-outermost".toList then
        if value.isSome then .error (.unwantedValue name) else given.setUnguarded.map .given
      else if name = "help".toList then
        if value.isSome then .error (.unwantedValue name) else .ok .help
      else .error (.unknownOption argument)
  | .short letter rest =>
    match verb.parameters.find? (·.letter? = some letter), rest with
    | some parameter, [] => .ok (.awaiting given parameter)
    | some parameter, '=' :: value => (given.set parameter value).map .given
    | some parameter, value => (given.set parameter value).map .given
    | none, _ => if letter = 'h' then .ok .help else .error (.unknownOption argument)

/-- The request of a command with the arguments after its name. -/
def readArguments (verb : Verb) (given : Given) : List Text → Except Misuse Request
  | [] => .ok (.perform (given.command verb))
  | argument :: rest =>
    match step verb given argument with
    | .error misuse => .error misuse
    | .ok .help => .ok .help
    | .ok .marked =>
      (rest.foldlM (Given.setDirectory verb) given).map fun given => .perform (given.command verb)
    | .ok (.given given) => readArguments verb given rest
    | .ok (.awaiting given parameter) =>
      match rest with
      | [] => .error (.missingValue parameter.name)
      | value :: rest =>
        match Argument.ofText value with
        | .plain value =>
          match given.set parameter value with
          | .error misuse => .error misuse
          | .ok given => readArguments verb given rest
        | _ => .error (.missingValue parameter.name)

/-- The request of the arguments after the word `help`. -/
def readHelp : List Text → Except Misuse Request
  | [] => .ok .help
  | [word] =>
      if word = "help".toList ∨ (Verb.ofText? word).isSome then .ok .help
      else .error (.unknownCommand word)
  | _ :: word :: _ => .error (.unexpected word)

/-- The request of a command line. -/
def read : List Text → Except Misuse Request
  | [] => .error .noCommand
  | word :: rest =>
    match Verb.ofText? word with
    | some verb => readArguments verb {} rest
    | none =>
      if word = "help".toList then readHelp rest
      else
        match Argument.ofText word with
        | .mark => .error .noCommand
        | .long name none =>
            if name = "version".toList then .ok .version
            else if name = "help".toList then .ok .help
            else .error (.unknownOption word)
        | .short letter _ =>
            if letter = 'V' then .ok .version
            else if letter = 'h' then .ok .help
            else .error (.unknownOption word)
        | .long _ _ => .error (.unknownOption word)
        | .plain _ => .error (.unknownCommand word)

end CommandLine

end ValueNames
