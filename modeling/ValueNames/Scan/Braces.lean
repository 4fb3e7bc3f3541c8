import ValueNames.Text.Basic

/-!
# Open braces

Whether a text leaves more braces open than it closes. Braces in quotes do not
count, a quote is left only by the same quote, and inside quotes a backslash
takes the next character with it.
-/

namespace ValueNames.Scan

/-- Adds to `depth` the opening and takes from it the closing braces outside quotes. -/
def braceDepth (depth : Int) (quote : Option Char) : Text → Int
  | [] => depth
  | c :: s =>
      match quote with
      | some q =>
          if c = '\\' then
            match s with
            | [] => depth
            | _ :: rest => braceDepth depth quote rest
          else braceDepth depth (if c = q then none else quote) s
      | none =>
          if c = '"' ∨ c = '\'' then braceDepth depth (some c) s
          else if c = '\x7b' then braceDepth (depth + 1) none s
          else if c = '\x7d' then braceDepth (depth - 1) none s
          else braceDepth depth none s

/-- Whether a text opens more braces than it closes. -/
def leavesBraceOpen (s : Text) : Bool := 0 < braceDepth 0 none s

end ValueNames.Scan
