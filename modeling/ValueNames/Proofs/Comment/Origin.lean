import ValueNames.Comment
import ValueNames.Proofs.Conditional.Placement

/-!
# Where stripped text comes from

Stripping takes characters out of a text, so the offsets of the text that is
left are not those of the text as it was written. Every line feed is kept, and
so each kept character stays on its line.

## Main results

* `keptOf_marked` — stripping keeps the marked characters and no others.
* `DirectiveLine.StandsIn.exists_writtenAt` — a directive line of the stripped
  text has its mark in the text as it was written.
* `DirectiveLine.WrittenAt.lineOf_eq` — and the two are on the same line.
-/

namespace ValueNames

namespace Comment

/-! ## Kept characters -/

/-- The characters of a piece, each with whether stripping keeps it. -/
def Piece.marked : Piece → List (Char × Bool)
  | literal text => text.map fun c => (c, true)
  | comment text => text.map fun c => (c, c = '\n')
  | plain c => [(c, true)]

/-- The characters of a text, each with whether stripping keeps it. -/
def marked (s : Text) : List (Char × Bool) := (pieces s).flatMap Piece.marked

/-- The text as it was written. -/
def textOf (chars : List (Char × Bool)) : Text := chars.map (·.1)

/-- The text that stripping keeps. -/
def keptOf (chars : List (Char × Bool)) : Text := textOf (chars.filter (·.2))

@[simp] theorem textOf_append (front back : List (Char × Bool)) :
    textOf (front ++ back) = textOf front ++ textOf back :=
  List.map_append

@[simp] theorem keptOf_append (front back : List (Char × Bool)) :
    keptOf (front ++ back) = keptOf front ++ keptOf back := by
  rw [keptOf, List.filter_append, textOf_append]
  rfl

theorem textOf_pieceMarked (piece : Piece) : textOf piece.marked = piece.text := by
  cases piece with
  | literal text => simp [textOf, Piece.marked, Piece.text, Function.comp_def]
  | comment text => simp [textOf, Piece.marked, Piece.text, Function.comp_def]
  | plain c => rfl

theorem keptOf_pieceMarked (piece : Piece) : keptOf piece.marked = piece.kept := by
  cases piece with
  | literal text =>
      simp [keptOf, textOf, Piece.marked, Piece.kept, List.filter_map, Function.comp_def]
  | comment text =>
      simp [keptOf, textOf, Piece.marked, Piece.kept, List.filter_map, Function.comp_def]
  | plain c => rfl

/-- The marked characters are those of the text. -/
theorem textOf_marked (s : Text) : textOf (marked s) = s := by
  have hPieces : ∀ ps : List Piece,
      textOf (ps.flatMap Piece.marked) = ps.flatMap Piece.text := by
    intro ps
    induction ps with
    | nil => rfl
    | cons piece ps ih =>
        rw [List.flatMap_cons, List.flatMap_cons, textOf_append, textOf_pieceMarked, ih]
  rw [marked, hPieces, pieces_flatMap_text]

/-- Stripping keeps the characters marked so. -/
theorem keptOf_marked (s : Text) : keptOf (marked s) = strip s := by
  have hPieces : ∀ ps : List Piece,
      keptOf (ps.flatMap Piece.marked) = ps.flatMap Piece.kept := by
    intro ps
    induction ps with
    | nil => rfl
    | cons piece ps ih =>
        rw [List.flatMap_cons, List.flatMap_cons, keptOf_append, keptOf_pieceMarked, ih]
  rw [marked, hPieces, strip_eq_flatMap_kept]

/-- Every line feed is kept. -/
theorem kept_of_newline {s : Text} {char : Char × Bool} (h : char ∈ marked s)
    (hNewline : char.1 = '\n') : char.2 = true := by
  obtain ⟨piece, _, hChar⟩ := List.mem_flatMap.mp h
  cases piece with
  | literal text =>
      obtain ⟨c, _, rfl⟩ := List.mem_map.mp hChar
      rfl
  | comment text =>
      obtain ⟨c, _, rfl⟩ := List.mem_map.mp hChar
      simpa using hNewline
  | plain c =>
      obtain rfl := List.mem_singleton.mp hChar
      rfl

/-- So the kept characters have all the line feeds. -/
theorem count_newline_keptOf {chars : List (Char × Bool)}
    (h : ∀ char ∈ chars, char.1 = '\n' → char.2 = true) :
    (keptOf chars).count '\n' = (textOf chars).count '\n' := by
  induction chars with
  | nil => rfl
  | cons char chars ih =>
      have hRest := ih fun other hOther => h other (by simp [hOther])
      obtain ⟨c, kept⟩ := char
      cases kept with
      | true =>
          show (c :: keptOf chars).count '\n' = (c :: textOf chars).count '\n'
          rw [List.count_cons, List.count_cons, hRest]
      | false =>
          have hOther : c ≠ '\n' := by
            intro hNewline
            have hKept := h (c, false) (by simp) hNewline
            cases hKept
          show (keptOf chars).count '\n' = (c :: textOf chars).count '\n'
          rw [List.count_cons_of_ne hOther, hRest]

/-- A cut of the kept text is a cut of the marked one. -/
theorem exists_marked_append {chars : List (Char × Bool)} {front back : Text}
    (h : keptOf chars = front ++ back) :
    ∃ ahead behind, chars = ahead ++ behind ∧ keptOf ahead = front ∧ keptOf behind = back := by
  obtain ⟨first, second, hFilter, hFirst, hSecond⟩ := List.map_eq_append_iff.mp h
  obtain ⟨ahead, behind, hChars, hAhead, hBehind⟩ := List.filter_eq_append_iff.mp hFilter
  refine ⟨ahead, behind, hChars, ?_, ?_⟩
  · rw [keptOf, hAhead]
    exact hFirst
  · rw [keptOf, hBehind]
    exact hSecond

/-- The next kept character is marked, and what is before it is taken out. -/
theorem exists_marked_cons {chars : List (Char × Bool)} {c : Char} {back : Text}
    (h : keptOf chars = c :: back) :
    ∃ ahead behind, chars = ahead ++ (c, true) :: behind ∧ keptOf ahead = [] := by
  obtain ⟨char, rest, hFilter, hChar, _⟩ := List.map_eq_cons_iff.mp h
  obtain ⟨ahead, behind, hChars, hAhead, hKept, _⟩ := List.filter_eq_cons_iff.mp hFilter
  obtain ⟨own, kept⟩ := char
  obtain rfl : own = c := hChar
  obtain rfl : kept = true := hKept
  refine ⟨ahead, behind, hChars, ?_⟩
  rw [keptOf, List.filter_eq_nil_iff.mpr hAhead]
  rfl

end Comment

open Comment

/-! ## Directive lines -/

/--
A directive line of the stripped text is written at an offset of the raw text:
there is its mark, with nothing but blanks before it on the line that is kept.
-/
def DirectiveLine.WrittenAt (raw : Text) (line : DirectiveLine) (offset : Nat) : Prop :=
  ∃ front blanks behind, marked raw = front ++ blanks ++ ('#', true) :: behind ∧
    Text.size (keptOf front) = line.span.start ∧
    (∀ c ∈ keptOf blanks, Text.isSpaceOrTab c = true) ∧
    Text.size (textOf (front ++ blanks)) = offset

namespace DirectiveLine

variable {raw : Text} {line : DirectiveLine}

/-- A directive line of the stripped text is written somewhere in the raw text. -/
theorem StandsIn.exists_writtenAt (h : line.StandsIn (strip raw)) :
    ∃ offset, line.WrittenAt raw offset := by
  obtain ⟨front, blanks, text, back, hSource, hBlanks, _, hSpan⟩ := h
  have hKept : keptOf (marked raw) = front ++ (blanks ++ '#' :: (text ++ back)) := by
    rw [keptOf_marked, hSource]
    simp
  obtain ⟨ahead, rest, hChars, hAhead, hRest⟩ := exists_marked_append hKept
  obtain ⟨between, tail, rfl, hBetween, hTail⟩ := exists_marked_append hRest
  obtain ⟨gone, behind, rfl, hGone⟩ := exists_marked_cons hTail
  refine ⟨_, ahead, between ++ gone, behind, by simp [hChars], ?_, ?_, rfl⟩
  · rw [hAhead, hSpan]
  · rw [keptOf_append, hGone, List.append_nil, hBetween]
    exact hBlanks

/-- The raw text has the mark of the line at that offset. -/
theorem WrittenAt.exists_mark {offset : Nat} (h : line.WrittenAt raw offset) :
    ∃ ahead behind, raw = ahead ++ '#' :: behind ∧ Text.size ahead = offset := by
  obtain ⟨front, blanks, behind, hMarked, _, _, hOffset⟩ := h
  refine ⟨textOf (front ++ blanks), textOf behind, ?_, hOffset⟩
  have hText := textOf_marked raw
  rw [hMarked, textOf_append] at hText
  exact hText.symm

/-- The line of a directive line in the stripped text is that of its mark in the raw text. -/
theorem WrittenAt.lineOf_eq {offset : Nat} (h : line.WrittenAt raw offset) :
    line.span.line (strip raw) = Text.lineOf raw offset := by
  obtain ⟨front, blanks, behind, hMarked, hStart, hBlanks, hOffset⟩ := h
  have hStrip : strip raw = keptOf front ++ keptOf (blanks ++ ('#', true) :: behind) := by
    rw [← keptOf_marked, hMarked, List.append_assoc, keptOf_append]
  have hRaw : raw = textOf (front ++ blanks) ++ textOf (('#', true) :: behind) := by
    rw [← textOf_append, ← hMarked, textOf_marked]
  have hNewlines : ∀ char ∈ front ++ blanks, char.1 = '\n' → char.2 = true := by
    intro char hChar
    exact kept_of_newline (s := raw) (by rw [hMarked]; exact List.mem_append_left _ hChar)
  have hNone : (keptOf blanks).count '\n' = 0 := by
    apply List.count_eq_zero.mpr
    intro hMem
    have hBlank := hBlanks '\n' hMem
    cases hBlank
  have hKeptLine := Text.lineOf_size (keptOf front) (keptOf (blanks ++ ('#', true) :: behind))
  have hRawLine :=
    Text.lineOf_size (textOf (front ++ blanks)) (textOf (('#', true) :: behind))
  rw [← hStrip, hStart] at hKeptLine
  rw [← hRaw, hOffset, ← count_newline_keptOf hNewlines, keptOf_append, List.count_append,
    hNone] at hRawLine
  rw [Span.line, hKeptLine, hRawLine]

end DirectiveLine

end ValueNames
