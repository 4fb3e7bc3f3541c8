import ValueNames.Text.Basic

/-!
# Comments of C

A text is read from left to right as a sequence of pieces: quoted literals,
comments and single plain characters. A quote that is never closed and a
`/*` that is never closed are plain characters. Stripping keeps literals and
plain characters and leaves of a comment only its line feeds, so that every
line keeps its number.

## Main results

* `pieces_flatMap_text` — the pieces put together are the text.
* `strip_eq_flatMap_kept` — stripping treats the pieces one by one.
* `count_newline_strip` — stripping keeps the number of line feeds.
-/

namespace ValueNames.Comment

/-! ## Pieces -/

/-- A piece of a C text. -/
inductive Piece
  /-- A complete string or character literal with its quotes. -/
  | literal (text : Text)
  /-- A complete comment with its marks; the line feed after `//` is not part of it. -/
  | comment (text : Text)
  | plain (c : Char)
deriving DecidableEq, Repr

/-- The text of a piece. -/
def Piece.text : Piece → Text
  | literal text => text
  | comment text => text
  | plain c => [c]

/-- What stripping leaves of a piece. -/
def Piece.kept : Piece → Text
  | literal text => text
  | comment text => text.filter (· = '\n')
  | plain c => [c]

/--
Adds to `count` the characters up to and with the first `quote` that no
backslash escapes.
-/
def closeQuote? (quote : Char) (count : Nat) : Text → Option Nat
  | [] => none
  | ['\\'] => none
  | '\\' :: _ :: s => closeQuote? quote (count + 2) s
  | c :: s => if c = quote then some (count + 1) else closeQuote? quote (count + 1) s

/-- Adds to `count` the characters up to and with the first `*/`. -/
def closeBlock? (count : Nat) : Text → Option Nat
  | [] => none
  | '*' :: '/' :: _ => some (count + 2)
  | _ :: s => closeBlock? (count + 1) s

/-- Whether a character ends a `//` comment. -/
def endsLineComment (c : Char) : Bool := c = '\n' || c = '\r'

/-- The first piece of a text that begins with `c`, and the rest. -/
def nextPiece (c : Char) (s : Text) : Piece × Text :=
  if c = '"' ∨ c = '\'' then
    match closeQuote? c 0 s with
    | some n => (.literal (c :: s.take n), s.drop n)
    | none => (.plain c, s)
  else if c = '/' then
    match s with
    | '*' :: body =>
        match closeBlock? 0 body with
        | some n => (.comment ('/' :: '*' :: body.take n), body.drop n)
        | none => (.plain c, s)
    | '/' :: body =>
        (.comment ('/' :: '/' :: body.takeWhile (!endsLineComment ·)),
          body.dropWhile (!endsLineComment ·))
    | _ => (.plain c, s)
  else (.plain c, s)

/-- A piece and the rest make up the text. -/
theorem nextPiece_text (c : Char) (s : Text) :
    (nextPiece c s).1.text ++ (nextPiece c s).2 = c :: s := by
  unfold nextPiece
  split
  · split <;> simp [Piece.text]
  · split
    · rename_i hSlash
      subst hSlash
      split
      · split <;> simp [Piece.text]
      · simp [Piece.text, List.takeWhile_append_dropWhile]
      · simp [Piece.text]
    · simp [Piece.text]

theorem text_ne_nil_nextPiece (c : Char) (s : Text) : (nextPiece c s).1.text ≠ [] := by
  unfold nextPiece
  repeat' split
  all_goals simp [Piece.text]

/-- Every piece takes something from the text. -/
theorem length_nextPiece_lt (c : Char) (s : Text) :
    (nextPiece c s).2.length < s.length + 1 := by
  have hText := congrArg List.length (nextPiece_text c s)
  have hPos := List.length_pos_iff.mpr (text_ne_nil_nextPiece c s)
  simp only [List.length_append, List.length_cons] at hText
  omega

/-- The pieces of a text, from left to right. -/
def pieces : Text → List Piece
  | [] => []
  | c :: s =>
      have := length_nextPiece_lt c s
      (nextPiece c s).1 :: pieces (nextPiece c s).2
termination_by s => s.length

theorem pieces_flatMap_text (s : Text) : (pieces s).flatMap Piece.text = s := by
  fun_induction pieces s with
  | case1 => rfl
  | case2 c s _ ih => simp [ih, nextPiece_text]

/-! ## Stripping -/

/-- Strips the rest of a text of which `done` is already stripped and turned around. -/
def stripInto (done : Text) : Text → Text
  | [] => done.reverse
  | c :: s =>
      have := length_nextPiece_lt c s
      stripInto ((nextPiece c s).1.kept.reverse ++ done) (nextPiece c s).2
termination_by s => s.length

/-- The text without its comments; each leaves its line feeds behind. -/
def strip (s : Text) : Text := stripInto [] s

theorem stripInto_eq (done s : Text) :
    stripInto done s = done.reverse ++ (pieces s).flatMap Piece.kept := by
  fun_induction stripInto done s with
  | case1 done => simp [pieces]
  | case2 done c s _ ih => simp [ih, pieces]

theorem strip_eq_flatMap_kept (s : Text) : strip s = (pieces s).flatMap Piece.kept := by
  simp [strip, stripInto_eq]

theorem count_newline_kept (piece : Piece) :
    piece.kept.count '\n' = piece.text.count '\n' := by
  cases piece with
  | literal text => rfl
  | comment text => simp [Piece.kept, Piece.text, List.count_filter]
  | plain c => rfl

theorem count_newline_strip (s : Text) : (strip s).count '\n' = s.count '\n' := by
  have hPieces : ∀ ps : List Piece,
      (ps.flatMap Piece.kept).count '\n' = (ps.flatMap Piece.text).count '\n' := by
    intro ps
    induction ps with
    | nil => rfl
    | cons piece ps ih => simp [count_newline_kept, ih]
  rw [strip_eq_flatMap_kept, hPieces, pieces_flatMap_text]

end ValueNames.Comment
