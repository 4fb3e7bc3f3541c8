import ValueNames.Proofs.Comment.Decomposition
import ValueNames.Proofs.Scan.Braces

/-!
# Braces and literals

Braces are counted by a scanner that knows of no pieces: it remembers the quote it is in. In
a text without comments it counts what stands outside the literals, as long as every quote
is closed. A quote that is never closed is a plain character to the pieces, but the scanner
takes all that follows it for quoted, and so counts nothing there.

## Main results

* `braceDepth_some` — a quote is left where its literal ends, or never.
* `braceDepth_eq_excess` — what is counted stands before the first quote that is never closed.
* `leavesBraceOpen_iff` — when a text without comments leaves a brace open.
-/

namespace ValueNames

/-! ## What stands outside the literals -/

namespace Comment

/-- What is left of a piece where literals are taken out. -/
def Piece.outside : Piece → Text
  | literal _ => []
  | comment text => text
  | plain c => [c]

/-- Whether a piece is a quote that is never closed. -/
def Piece.isOpenQuote : Piece → Bool
  | plain c => c = '"' || c = '\''
  | _ => false

/-- The text without its complete literals. -/
def withoutLiterals (s : Text) : Text := (pieces s).flatMap Piece.outside

/-- The text up to the first quote that is never closed, without its complete literals. -/
def beforeOpenQuote (s : Text) : Text :=
  ((pieces s).takeWhile (!·.isOpenQuote)).flatMap Piece.outside

theorem beforeOpenQuote_nil : beforeOpenQuote [] = [] := by
  rw [beforeOpenQuote, pieces]
  rfl

theorem beforeOpenQuote_cons (c : Char) (s : Text) :
    beforeOpenQuote (c :: s) =
      if (nextPiece c s).1.isOpenQuote then []
      else (nextPiece c s).1.outside ++ beforeOpenQuote (nextPiece c s).2 := by
  rw [beforeOpenQuote, pieces, List.takeWhile_cons]
  cases (nextPiece c s).1.isOpenQuote with
  | true => rfl
  | false => rfl

/-- If all quotes are closed, nothing stands behind an open one. -/
theorem beforeOpenQuote_eq {s : Text} (h : ∀ piece ∈ pieces s, piece.isOpenQuote = false) :
    beforeOpenQuote s = withoutLiterals s := by
  have hAll : ∀ piece ∈ pieces s, (!piece.isOpenQuote) = true := by
    intro piece hPiece
    rw [h piece hPiece]
    rfl
  rw [beforeOpenQuote, List.takeWhile_eq_self_iff.mpr hAll, withoutLiterals]

end Comment

namespace Scan

open Comment

/-! ## The depth of the braces -/

/-- A quote is left where its literal ends; if it never ends, nothing more is counted. -/
theorem braceDepth_some (depth : Int) (quote : Char) (s : Text) :
    braceDepth depth (some quote) s =
      (behindQuote? quote false s).elim depth (braceDepth depth none) := by
  -- Behind a backslash the next character is skipped, so that two are read at once.
  induction hLength : s.length using Nat.strongRecOn generalizing s with
  | _ length ih =>
      cases s with
      | nil => rfl
      | cons c s =>
          rw [List.length_cons] at hLength
          rw [braceDepth.eq_def, behindQuote?_cons, quoteStep?, if_neg (by decide)]
          by_cases hBackslash : c = '\\'
          · simp only [if_pos hBackslash]
            cases s with
            | nil => rfl
            | cons d s =>
                rw [List.length_cons] at hLength
                exact ih s.length (by omega) s rfl
          · by_cases hEnd : c = quote
            · simp only [if_neg hBackslash, if_pos hEnd]
              rfl
            · simp only [if_neg hBackslash, if_neg hEnd]
              exact ih s.length (by omega) s rfl

/-- A literal is skipped. -/
theorem braceDepth_literal {quote : Char} {taken : Text} (hQuote : quote = '"' ∨ quote = '\'')
    (hTaken : ∀ back, behindQuote? quote false (taken ++ back) = some back) (depth : Int)
    (back : Text) : braceDepth depth none (quote :: (taken ++ back)) = braceDepth depth none back := by
  rw [braceDepth, if_pos hQuote, braceDepth_some, hTaken, Option.elim_some]

/-- Behind a quote that is never closed nothing is counted. -/
theorem braceDepth_openQuote {quote : Char} {s : Text} (hQuote : quote = '"' ∨ quote = '\'')
    (hOpen : behindQuote? quote false s = none) (depth : Int) :
    braceDepth depth none (quote :: s) = depth := by
  rw [braceDepth, if_pos hQuote, braceDepth_some, hOpen, Option.elim_none]

/-- Any other character counts by itself. -/
theorem braceDepth_cons {c : Char} (hQuote : ¬ (c = '"' ∨ c = '\'')) (depth : Int) (s : Text) :
    braceDepth depth none (c :: s) = braceDepth (depth + excess [c]) none s := by
  rw [braceDepth, if_neg hQuote]
  by_cases hOpens : c = '\x7b'
  · rw [if_pos hOpens, hOpens]
    rfl
  · rw [if_neg hOpens]
    by_cases hCloses : c = '\x7d'
    · rw [if_pos hCloses, hCloses]
      rfl
    · have hNone : excess [c] = 0 := by simp [excess, hOpens, hCloses]
      rw [if_neg hCloses, hNone, Int.add_zero]

/-- In a text without comments, what stands before the first open quote is counted. -/
theorem braceDepth_eq_excess {s : Text} (h : ∀ text, Piece.comment text ∉ pieces s) (depth : Int) :
    braceDepth depth none s = depth + excess (beforeOpenQuote s) := by
  induction s using pieces.induct generalizing depth with
  | case1 =>
      rw [beforeOpenQuote_nil]
      exact (Int.add_zero depth).symm
  | case2 c s _ ih =>
      rw [pieces] at h
      have hRest : ∀ text, Piece.comment text ∉ pieces (nextPiece c s).2 :=
        fun text hText => h text (List.mem_cons_of_mem _ hText)
      rw [beforeOpenQuote_cons]
      obtain ⟨taken, rest, hQuote, rfl, hTaken, hPiece⟩ | ⟨text, rest, _, _, hPiece⟩ | hPiece :=
        nextPiece_cases c s
      · rw [hPiece] at hRest ih ⊢
        rw [braceDepth_literal hQuote hTaken, ih hRest]
        rfl
      · rw [hPiece] at h
        exact absurd List.mem_cons_self (h text)
      · rw [hPiece] at hRest ih ⊢
        by_cases hQuote : c = '"' ∨ c = '\''
        · have hOpen := behindQuote?_eq_none_of_plain hQuote hPiece
          have hMark : (Piece.plain c).isOpenQuote = true := by simpa [Piece.isOpenQuote] using hQuote
          rw [braceDepth_openQuote hQuote hOpen, if_pos hMark]
          exact (Int.add_zero depth).symm
        · have hMark : ¬ (Piece.plain c).isOpenQuote = true := by
            simpa [Piece.isOpenQuote] using hQuote
          rw [braceDepth_cons hQuote, ih hRest, if_neg hMark, excess_append, Int.add_assoc]
          rfl

/--
A text without comments leaves a brace open if it opens more than it closes outside its
literals, up to the first quote that is never closed. If every quote is closed, that is the
whole text outside its literals.
-/
theorem leavesBraceOpen_iff {s : Text} (h : ∀ text, Piece.comment text ∉ pieces s) :
    (leavesBraceOpen s = true ↔ 0 < excess (beforeOpenQuote s)) ∧
      ((∀ piece ∈ pieces s, piece.isOpenQuote = false) →
        (leavesBraceOpen s = true ↔ 0 < excess (withoutLiterals s))) := by
  have hBefore : leavesBraceOpen s = true ↔ 0 < excess (beforeOpenQuote s) := by
    rw [leavesBraceOpen, braceDepth_eq_excess h, Int.zero_add, decide_eq_true_eq]
  refine ⟨hBefore, fun hClosed => ?_⟩
  rw [hBefore, beforeOpenQuote_eq hClosed]

/-- A text with braces in both kinds of literals, an escaped quote and an open brace. -/
def quotedBraces : Text := "char q = '\\'', *s = \"\x7d\\\"\x7d\"; enum e \x7b A,".toList

/-- The braces in its literals do not count. -/
theorem leavesBraceOpen_quotedBraces :
    (∀ text, Piece.comment text ∉ pieces quotedBraces) ∧
      (∀ piece ∈ pieces quotedBraces, piece.isOpenQuote = false) ∧
      leavesBraceOpen quotedBraces = true ∧ 0 < excess (withoutLiterals quotedBraces) := by
  have hPieces : ∀ piece ∈ pieces quotedBraces, piece.isOpenQuote = false ∧
      (∀ text ∈ [piece.text], piece ≠ .comment text) := by decide +kernel
  have hNone : ∀ text, Piece.comment text ∉ pieces quotedBraces := fun text hMem =>
    (hPieces _ hMem).2 text (List.mem_singleton_self text) rfl
  have hClosed : ∀ piece ∈ pieces quotedBraces, piece.isOpenQuote = false := fun piece hMem =>
    (hPieces piece hMem).1
  have hOpen : leavesBraceOpen quotedBraces = true := by decide +kernel
  exact ⟨hNone, hClosed, hOpen, ((leavesBraceOpen_iff hNone).2 hClosed).mp hOpen⟩

/-- The start of an enumeration behind a word with an apostrophe. -/
def apostrophe : Text := "#warning don't\nenum e \x7b\nA,\n".toList

/--
The apostrophe opens no literal, and outside the literals a brace is opened and none closed.
But nothing behind it is counted.
-/
theorem leavesBraceOpen_apostrophe :
    (∀ text, Piece.comment text ∉ pieces apostrophe) ∧ withoutLiterals apostrophe = apostrophe ∧
      0 < excess (withoutLiterals apostrophe) ∧ leavesBraceOpen apostrophe = false := by
  have hPieces : ∀ piece ∈ pieces apostrophe, ∀ text ∈ [piece.text], piece ≠ .comment text := by
    decide +kernel
  have hNone : ∀ text, Piece.comment text ∉ pieces apostrophe := fun text hMem =>
    hPieces _ hMem text (List.mem_singleton_self text) rfl
  exact ⟨hNone, by decide +kernel, by decide +kernel, by decide +kernel⟩

end Scan

end ValueNames
