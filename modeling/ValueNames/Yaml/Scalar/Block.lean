import ValueNames.Yaml.Scalar.Basic

/-!
# Block scalars

The content of a block scalar is the lines after its indicator that are
indented as far as the first of them, or as far as a digit behind the
indicator says. A literal scalar keeps its line breaks; a folded one folds
them, but not next to a line that begins with white space. A plus or a minus
behind the indicator decides what becomes of the breaks at the end.

## Main results

* `blockScalar?_length_le` — reading a block scalar goes forward in the text.
-/

namespace ValueNames.Yaml

/-! ## The line of the indicator -/

/-- What becomes of the line breaks at the end of a block scalar. -/
inductive Chomping
  | strip
  | clip
  | keep
deriving DecidableEq, Repr

/-- The chomping that a sign asks for. -/
def Chomping.ofSign? : Char → Option Chomping
  | '-' => some strip
  | '+' => some keep
  | _ => none

/-- The breaks that stay of those at the end. -/
def Chomping.apply : Chomping → Text → Text
  | strip, _ => []
  | clip, breaks => breaks.take 1
  | keep, breaks => breaks

/-- The value of a decimal digit. -/
def digit? (c : Char) : Option Nat := if c.isDigit then some (c.toNat - '0'.toNat) else none

/-- What the first character means, if it means something, and the rest after it. -/
def takeOptional {α : Type} (meaning? : Char → Option α) : Source → Option α × Source
  | [] => (none, [])
  | c :: s =>
      match meaning? c.char with
      | some found => (some found, s)
      | none => (none, c :: s)

theorem takeOptional_length_le {α : Type} (meaning? : Char → Option α) (s : Source) :
    (takeOptional meaning? s).2.length ≤ s.length := by
  unfold takeOptional
  split
  · exact Nat.le_refl _
  · split <;> simp

/--
The chomping, the number of columns of indentation if it is given, and the
rest. The sign and the digit come in any order.
-/
def blockHeader (s : Source) : Chomping × Option Nat × Source :=
  let first := takeOptional Chomping.ofSign? s
  let width := takeOptional digit? first.2
  let second := if first.1.isSome then (none, width.2) else takeOptional Chomping.ofSign? width.2
  ((first.1.or second.1).getD .clip, width.1, second.2)

theorem blockHeader_length_le (s : Source) : (blockHeader s).2.2.length ≤ s.length := by
  have hFirst := takeOptional_length_le Chomping.ofSign? s
  have hWidth := takeOptional_length_le digit? (takeOptional Chomping.ofSign? s).2
  have hSecond := takeOptional_length_le Chomping.ofSign?
    (takeOptional digit? (takeOptional Chomping.ofSign? s).2).2
  unfold blockHeader
  dsimp only
  split
  · exact Nat.le_trans hWidth hFirst
  · exact Nat.le_trans hSecond (Nat.le_trans hWidth hFirst)

/-! ## Lines -/

/--
The breaks up to the next content at the column `indent`, and the rest; without
`indent` the content may begin in any column. No tab may stand before it.
-/
def blockBreaks? (indent : Option Nat) : Source → Option (Text × Source)
  | [] => some ([], [])
  | c :: s =>
      if isBreak c.char then
        (blockBreaks? indent s).map fun (breaks, rest) => (c.char :: breaks, rest)
      else if indent.all (c.column < ·) && isWhite c.char then
        if c.char = '\t' then none else blockBreaks? indent s
      else some ([], c :: s)

/-- The column farthest to the right at which one of the lines up to the first content ends. -/
def contentColumn : Source → Nat
  | [] => 0
  | c :: s =>
      if isBreak c.char then max c.column (contentColumn s)
      else if c.char = ' ' then contentColumn s
      else c.column

theorem blockBreaks?_length_le {indent : Option Nat} {s rest : Source} {breaks : Text}
    (h : blockBreaks? indent s = some (breaks, rest)) : rest.length ≤ s.length := by
  fun_induction blockBreaks? indent s generalizing breaks rest with
  | case1 => cases h; exact Nat.le_refl _
  | case2 c s hBreak ih =>
      obtain ⟨⟨breaks', rest'⟩, hRest, hEq⟩ := Option.map_eq_some_iff.mp h
      cases hEq
      exact Nat.le_succ_of_le (ih hRest)
  | case3 => cases h
  | case4 c s _ _ _ ih => exact Nat.le_succ_of_le (ih h)
  | case5 => cases h; exact Nat.le_refl _

/-- A line of content and the breaks after it. -/
structure BlockLine where
  text : Text
  breaks : Text

/-- The text up to the next line break. -/
def lineAtFront (s : Source) : Text := chars (s.takeWhile fun c => !isBreak c.char)

/-- The lines of content from the column `indent` on, and the rest. -/
def blockLines? (indent : Nat) (s : Source) : Option (List BlockLine × Source) :=
  if s.head?.all (·.column ≠ indent) then some ([], s)
  else
    match hLine : skipLine s with
    | [] => some ([⟨lineAtFront s, []⟩], [])
    | c :: next =>
        match hBreaks : blockBreaks? (some indent) next with
        | none => none
        | some (breaks, rest) =>
            have : rest.length < s.length := by
              have hNext := blockBreaks?_length_le hBreaks
              have hSkipped := length_skipLine_le s
              rw [hLine, List.length_cons] at hSkipped
              omega
            (blockLines? indent rest).map fun (lines, last) =>
              (⟨lineAtFront s, c.char :: breaks⟩ :: lines, last)
termination_by s.length
decreasing_by assumption

theorem blockLines?_length_le {indent : Nat} {s rest : Source} {lines : List BlockLine}
    (h : blockLines? indent s = some (lines, rest)) : rest.length ≤ s.length := by
  fun_induction blockLines? indent s generalizing lines rest with
  | case1 => cases h; exact Nat.le_refl _
  | case2 => cases h; exact Nat.zero_le _
  | case3 => cases h
  | case4 s _ c next _ breaks rest' _ hLess ih =>
      obtain ⟨⟨lines', last⟩, hLast, hEq⟩ := Option.map_eq_some_iff.mp h
      cases hEq
      exact Nat.le_trans (ih hLast) (Nat.le_of_lt hLess)

/-! ## Scalars -/

/-- Whether a line begins with white space. -/
def BlockLine.isIndented (line : BlockLine) : Bool := line.text.head?.any isWhite

/-- What the breaks between two lines count as. -/
def BlockLine.breaksBefore (style : Style) (line next : BlockLine) : Text :=
  if style = .folded ∧ !line.isIndented ∧ !next.isIndented then folded line.breaks
  else line.breaks

/-- The text of some lines. -/
def joinLines (style : Style) (chomping : Chomping) : List BlockLine → Text
  | [] => []
  | [line] => line.text ++ chomping.apply line.breaks
  | line :: next :: lines =>
      line.text ++ line.breaksBefore style next ++ joinLines style chomping (next :: lines)

/--
The text of a block scalar in a part of the document whose content begins at
the column `least`, and the rest.
-/
def blockScalar? (style : Style) (least : Nat) (s : Source) : Option (Text × Source) :=
  let (chomping, width, s) := blockHeader s
  if width = some 0 then none
  else
    (endLine? s).bind fun s =>
      let given := width.map (least - 1 + ·)
      let indent := given.getD (max (contentColumn s) (max least 1))
      (blockBreaks? given s).bind fun (breaks, s) =>
        (blockLines? indent s).map fun (lines, rest) =>
          if lines.isEmpty then (if chomping = .keep then breaks else [], rest)
          else (breaks ++ joinLines style chomping lines, rest)

theorem blockScalar?_length_le {style : Style} {least : Nat} {s rest : Source} {text : Text}
    (h : blockScalar? style least s = some (text, rest)) : rest.length ≤ s.length := by
  have hHeader := blockHeader_length_le s
  unfold blockScalar? at h
  dsimp only at h
  split at h
  · cases h
  · obtain ⟨s', hLine, h⟩ := Option.bind_eq_some_iff.mp h
    obtain ⟨⟨breaks, s''⟩, hBreaks, h⟩ := Option.bind_eq_some_iff.mp h
    obtain ⟨⟨lines, last⟩, hLines, hEq⟩ := Option.map_eq_some_iff.mp h
    have hLast : last = rest := by
      split at hEq <;> exact congrArg Prod.snd hEq
    subst hLast
    exact Nat.le_trans (blockLines?_length_le hLines) (Nat.le_trans
      (blockBreaks?_length_le hBreaks) (Nat.le_trans (endLine?_length_le hLine) hHeader))

end ValueNames.Yaml
