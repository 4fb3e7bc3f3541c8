import ValueNames.Yaml.Character

/-!
# Line folding

A scalar in a YAML document may go on over several lines. The breaks between
two lines are then folded: a single break counts as a space, and of several
breaks the first one is left out. Line and paragraph separators are not folded
away.

## Main results

* `skipBreaks?_length_le` — skipping breaks goes forward in the text.
-/

namespace ValueNames.Yaml

/-- The forms of scalars. -/
inductive Style
  | plain
  | quoted
  | literal
  | folded
deriving DecidableEq, Repr

/-- What the breaks between two lines of content count as. -/
def folded : Text → Text
  | ['\n'] => [' ']
  | '\n' :: breaks => breaks
  | breaks => breaks

/-- The text without spaces and tabs at its end. -/
def trimWhite (s : Text) : Text := (s.reverse.dropWhile isWhite).reverse

/--
The breaks up to the next content, and the rest. White space around them does
not count; there may be no tab to the left of the column `least`.
-/
def skipBreaks? (least : Nat) : Source → Option (Text × Source)
  | [] => some ([], [])
  | c :: s =>
      if isBreak c.char then
        (skipBreaks? least s).map fun (breaks, rest) => (c.char :: breaks, rest)
      else if c.char = '\t' ∧ c.column < least then none
      else if isWhite c.char then skipBreaks? least s
      else some ([], c :: s)

theorem skipBreaks?_length_le {least : Nat} {s rest : Source} {breaks : Text}
    (h : skipBreaks? least s = some (breaks, rest)) : rest.length ≤ s.length := by
  fun_induction skipBreaks? least s generalizing breaks rest with
  | case1 => cases h; exact Nat.le_refl _
  | case2 c s hBreak ih =>
      obtain ⟨⟨breaks', rest'⟩, hRest, hEq⟩ := Option.map_eq_some_iff.mp h
      cases hEq
      exact Nat.le_succ_of_le (ih hRest)
  | case3 => cases h
  | case4 c s _ _ _ ih => exact Nat.le_succ_of_le (ih h)
  | case5 => cases h; exact Nat.le_refl _

end ValueNames.Yaml
