import ValueNames.Text.Basic

/-!
# Lines

Lines end at a line feed. A carriage return before the line feed belongs to
the line end when a text is cut into lines, but a carriage return alone ends
nothing.

## Main results

* `join_splitOn` — the pieces between separators, put together again, are the text.
* `lineOf_append` — the line of an offset in the second of two texts is
  moved down by the line feeds of the first.
-/

namespace ValueNames.Text

/-! ## Cutting at a character -/

/-- The pieces between the occurrences of a character; always at least one. -/
def splitOn (sep : Char) : Text → List Text
  | [] => [[]]
  | c :: s =>
      if c = sep then [] :: splitOn sep s
      else
        match splitOn sep s with
        | [] => [[c]]
        | piece :: pieces => (c :: piece) :: pieces

theorem splitOn_ne_nil (sep : Char) (s : Text) : splitOn sep s ≠ [] := by
  cases s with
  | nil => simp [splitOn]
  | cons c s =>
      simp only [splitOn]
      split
      · simp
      · split <;> simp

theorem join_splitOn (sep : Char) (s : Text) : join [sep] (splitOn sep s) = s := by
  induction s with
  | nil => simp [splitOn, join]
  | cons c s ih =>
      have hNe := splitOn_ne_nil sep s
      simp only [splitOn]
      generalize splitOn sep s = pieces at ih hNe
      cases pieces with
      | nil => exact absurd rfl hNe
      | cons piece pieces =>
          split
          · rename_i hSep
            simp [join, ih, hSep]
          · cases pieces with
            | nil => simpa [join] using ih
            | cons next pieces =>
                simp only [join] at ih
                simp [join, ← ih]

/-! ## Lines of a text -/

/-- The line without a carriage return at its end. -/
def dropReturn (line : Text) : Text :=
  if line.getLast? = some '\r' then line.dropLast else line

/-- Turns the pieces between line feeds into lines; the last piece ends no line. -/
def linesOfPieces : List Text → List Text
  | [] => []
  | [piece] => if piece.isEmpty then [] else [piece]
  | piece :: pieces => dropReturn piece :: linesOfPieces pieces

/--
The lines of a text without their ends. A final line feed starts no further
line, and a carriage return counts to the line end only before a line feed.
-/
def lines (s : Text) : List Text := linesOfPieces (splitOn '\n' s)

/-- The first line, or all of the text if it has none. -/
def firstLine (s : Text) : Text := (lines s).headD s

/-! ## Line numbers -/

/-- Adds to `count` the line feeds that begin before a byte offset. -/
def addNewlines (count : Nat) : Text → Nat → Nat
  | [], _ => count
  | c :: s, offset =>
      if offset = 0 then count
      else addNewlines (if c = '\n' then count + 1 else count) s (offset - c.utf8Size)

/-- The number of line feeds that begin before a byte offset. -/
def newlinesBefore (s : Text) (offset : Nat) : Nat := addNewlines 0 s offset

/-- The line of a byte offset, counted from one; the end of the text stands for all beyond it. -/
def lineOf (s : Text) (offset : Nat) : Nat := newlinesBefore s offset + 1

theorem addNewlines_eq (count : Nat) (s : Text) (offset : Nat) :
    addNewlines count s offset = count + newlinesBefore s offset := by
  unfold newlinesBefore
  induction s generalizing count offset with
  | nil => simp [addNewlines]
  | cons c s ih =>
      simp only [addNewlines]
      split
      · simp
      · rw [ih, ih (if c = '\n' then 0 + 1 else 0)]
        split <;> omega

@[simp] theorem newlinesBefore_zero (s : Text) : newlinesBefore s 0 = 0 := by
  cases s <;> simp [newlinesBefore, addNewlines]

theorem newlinesBefore_append (s t : Text) (offset : Nat) :
    newlinesBefore (s ++ t) (size s + offset) = s.count '\n' + newlinesBefore t offset := by
  induction s with
  | nil => simp
  | cons c s ih =>
      have hc : 0 < c.utf8Size := c.utf8Size_pos
      have hNe : ¬ c.utf8Size + size s + offset = 0 := by omega
      have hSub : c.utf8Size + size s + offset - c.utf8Size = size s + offset := by omega
      rw [newlinesBefore]
      simp only [List.cons_append, addNewlines, size_cons, hNe, if_false, hSub,
        addNewlines_eq _ (s ++ t), ih, List.count_cons, beq_iff_eq]
      split <;> omega

theorem lineOf_append (s t : Text) (offset : Nat) :
    lineOf (s ++ t) (size s + offset) = s.count '\n' + lineOf t offset := by
  simp [lineOf, newlinesBefore_append, Nat.add_assoc]

end ValueNames.Text
