import ValueNames.Fault
import ValueNames.Text.Lines

/-!
# Failures

When a run fails, the report names what was being done and below it the
causes, the outermost first. A single cause is indented, and several causes are
numbered as well. The further lines of a cause start below its first one.
-/

namespace ValueNames

/-- What failed, and why. -/
structure Failure where
  message : Text
  causes : List Text := []
deriving DecidableEq, Repr

/-- The failure for a fault; the fault of a file is a cause of its own. -/
def Fault.failure (fault : Fault) : Failure :=
  match fault with
  | .file cause => ⟨fault.message, [cause.message]⟩
  | _ => ⟨fault.message, []⟩

namespace Failure

/-- A failure as the cause of another one. -/
def within (failure : Failure) (message : Text) : Failure :=
  ⟨message, failure.message :: failure.causes⟩

/-- A cause between a start for its first line and a start for its further lines. -/
def indented (first further cause : Text) : Text :=
  first ++ Text.join ('\n' :: further) (Text.splitOn '\n' cause)

/-- Causes with the numbers from `n` on. -/
def numbered (n : Nat) : List Text → List Text
  | [] => []
  | cause :: causes =>
      let number := Text.ofNat n
      let first := List.replicate (5 - number.length) ' ' ++ number ++ ": ".toList
      indented first "       ".toList cause :: numbered (n + 1) causes

/-- The causes as they are reported. -/
def reportedCauses : List Text → List Text
  | [cause] => [indented "    ".toList "    ".toList cause]
  | causes => numbered 0 causes

/-- The report of a failure. -/
def report (failure : Failure) : Text :=
  let causes :=
    if failure.causes = [] then []
    else "\n\nCaused by:\n".toList ++ Text.join ['\n'] (reportedCauses failure.causes)
  "Error: ".toList ++ failure.message ++ causes ++ ['\n']

end Failure

end ValueNames
