import ValueNames.Conditional.Guard

/-!
# Faults

Everything that can go wrong, as causes rather than as texts. `Fault.message`
is the one place that puts them into words.
-/

namespace ValueNames

/-- What the file system can answer instead of doing what was asked. -/
inductive FileFault
  | notFound
  | notDirectory
  | isDirectory
  /-- The content of the file is not UTF-8. -/
  | notText
  /-- The place is in use and cannot be replaced. -/
  | busy
  | other (reason : Text)
deriving DecidableEq, Repr

namespace FileFault

/-- The wording of a file fault. -/
def message : FileFault → Text
  | notFound => "No such file or directory (os error 2)".toList
  | notDirectory => "Not a directory (os error 20)".toList
  | isDirectory => "Is a directory (os error 21)".toList
  | notText => "stream did not contain valid UTF-8".toList
  | busy => "Device or resource busy (os error 16)".toList
  | other reason => reason

end FileFault

/-- The causes for which scanning, generating or loading settings fails. -/
inductive Fault
  /-- A closing directive at which no block is open. -/
  | strayCloser (line : Nat) (closer : Closer)
  /-- A branch still open at the end of the text. -/
  | neverClosed (line : Nat) (guard : Guard)
  | unknownDirective (word : Text)
  /-- An enumeration with neither a tag nor a typedef name. -/
  | unnamedEnum (span : Span)
  | emptyEnum (span : Span)
  /-- Macro groups cannot be told apart by an empty lead of their names. -/
  | emptyMacroLead
  | blankSetting (name : Text)
  /-- The content of a settings file is not a settings document. -/
  | malformedSettings (path : Text)
  | headerNotFound (header start : Text)
  | file (fault : FileFault)
  /-- Two offsets that do not cut a piece out of the text. -/
  | outOfText (span : Span)
  /-- A macro group without definitions, which has no place in the source. -/
  | emptyGroup (lead : Text)
deriving DecidableEq, Repr

namespace Fault

private def unbalanced (line : Nat) (detail : Text) : Text :=
  "Unbalanced conditional directives at line ".toList ++ Text.ofNat line ++ ": ".toList ++ detail

private def malformedEntity (span : Span) (detail : Text) : Text :=
  "Malformed entity: enum at ".toList ++ span.render ++ detail

private def configuration (detail : Text) : Text := "Configuration error: ".toList ++ detail

/-- The wording of a fault. -/
def message : Fault → Text
  | strayCloser line closer =>
      unbalanced line ('#' :: closer.word ++ " without a matching #if".toList)
  | neverClosed line guard => unbalanced line (guard.opening ++ " is never closed".toList)
  | unknownDirective word => "Unknown conditional directive: #".toList ++ word
  | unnamedEnum span => malformedEntity span " has neither a tag nor a typedef name".toList
  | emptyEnum span => malformedEntity span " has an empty body".toList
  | emptyMacroLead => configuration "macro prefix must not be empty".toList
  | blankSetting name => configuration ('\x60' :: name ++ '\x60' :: " must not be empty".toList)
  | malformedSettings path => configuration (path ++ ": not a settings document".toList)
  | headerNotFound header start =>
      configuration ("cannot find ".toList ++ header ++ " in ".toList ++ start ++
        " or any parent directory".toList)
  | file fault => "IO error: ".toList ++ fault.message
  | outOfText span => "no text at ".toList ++ span.render
  | emptyGroup lead => "macro group ".toList ++ lead ++ "* has no definitions".toList

end Fault

/-! ## Results -/

theorem bind_eq_ok_iff {ε α β : Type} {result : Except ε α} {next : α → Except ε β} {b : β} :
    result.bind next = .ok b ↔ ∃ a, result = .ok a ∧ next a = .ok b := by
  cases result with
  | error fault => simp [Except.bind]
  | ok a => simp [Except.bind]

theorem map_eq_ok_iff {ε α β : Type} {result : Except ε α} {f : α → β} {b : β} :
    result.map f = .ok b ↔ ∃ a, result = .ok a ∧ f a = b := by
  cases result with
  | error fault => simp [Except.map]
  | ok a => simp [Except.map]

end ValueNames
