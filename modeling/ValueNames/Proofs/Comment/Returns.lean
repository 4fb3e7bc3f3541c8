import ValueNames.Proofs.Comment.Decomposition
import ValueNames.Proofs.Text.Returns

/-!
# Comments and carriage returns

A carriage return before a line feed neither begins nor ends a literal or a comment, and is no
part of their marks. A line comment ends before both characters of a line end, a block comment
leaves only its line feeds. So stripping may leave some line ends with a carriage return and
others without, but no carriage return on its own.

## Main results

* `nextPiece_bare` — the same piece is taken without carriage returns.
* `paired_strip` — every carriage return that is left stands before a line feed.
* `strip_bare` — without carriage returns, what is left is the same.
-/

namespace ValueNames.Comment

open Text

variable {s : Text}

/-- The piece without carriage returns. -/
def Piece.bare : Piece → Piece
  | literal text => literal (Text.bare text)
  | comment text => comment (Text.bare text)
  | plain c => plain c

/-! ## Literals -/

/-- The end of a literal is found behind line ends of both kinds. -/
theorem behindQuote?_bare {quote : Char} (hQuote : quote = '"' ∨ quote = '\'') (escaped : Bool)
    (h : Paired s) :
    behindQuote? quote escaped (bare s) = (behindQuote? quote escaped s).map bare := by
  induction h generalizing escaped with
  | nil => rfl
  | @char c s hc _ ih =>
      rw [bare_cons hc, behindQuote?_cons, behindQuote?_cons]
      cases quoteStep? quote escaped c with
      | none => rfl
      | some next => exact ih next
  | @lineEnd s _ ih =>
      have hStep : ∀ c escaped, c = '\r' ∨ c = '\n' →
          quoteStep? quote escaped c = some false := by
        rintro c escaped (rfl | rfl) <;> rcases hQuote with rfl | rfl <;> cases escaped <;> rfl
      rw [bare_return, bare_cons (by decide)]
      simp only [behindQuote?_cons, hStep _ _ (.inl rfl), hStep _ _ (.inr rfl)]
      exact ih false

/-- A quote begins a literal if the literal ends. -/
theorem exists_literal_of_behindQuote? {quote : Char} {rest : Text}
    (hQuote : quote = '"' ∨ quote = '\'') (h : behindQuote? quote false s = some rest) :
    ∃ taken, s = taken ++ rest ∧ nextPiece quote s = (.literal (quote :: taken), rest) := by
  obtain ⟨taken, rfl, hTaken⟩ := exists_taken_of_behindQuote? h
  exact ⟨taken, rfl, nextPiece_of_closed hQuote hTaken rest⟩

theorem IsLiteral.paired {text rest : Text} (h : IsLiteral text) (hPaired : Paired (text ++ rest)) :
    Paired text := by
  obtain ⟨quote, body, hQuote, _, rfl⟩ := h
  have hEnd : quote ≠ '\n' ∧ quote ≠ '\r' := by rcases hQuote with rfl | rfl <;> decide
  have hFront : Paired (quote :: body ++ quote :: rest) := by simpa using hPaired
  exact (hFront.of_append_cons hEnd.1).append (Paired.nil.char hEnd.2)

/-! ## Comments -/

/-- Without carriage returns no end of a block comment comes about. -/
theorem infix_of_infix_bare (h : Paired s) (hEnd : ['*', '/'] <:+: bare s) :
    ['*', '/'] <:+: s := by
  induction h with
  | nil => exact hEnd
  | @char c s hc hs ih =>
      rw [bare_cons hc, List.infix_cons_iff] at hEnd
      rw [List.infix_cons_iff]
      rcases hEnd with ⟨back, hBack⟩ | hEnd
      · obtain ⟨rfl, hSlash⟩ := List.cons.inj hBack
        obtain ⟨rest, rfl, _⟩ := hs.exists_of_bare_eq_cons (by decide) hSlash.symm
        exact .inl ⟨rest, rfl⟩
      · exact .inr (ih hEnd)
  | @lineEnd s _ ih =>
      rw [bare_return, bare_cons (by decide), List.infix_cons_iff] at hEnd
      rcases hEnd with ⟨back, hBack⟩ | hEnd
      · cases hBack
      · exact List.infix_cons (List.infix_cons (ih hEnd))

theorem IsComment.bare {text rest : Text} (h : IsComment text rest)
    (hPaired : Paired (text ++ rest)) : IsComment (Text.bare text) (Text.bare rest) := by
  rcases h with ⟨body, rfl, hFirst⟩ | ⟨body, rfl, hBody, hRest⟩
  · refine .inl ⟨Text.bare body, ?_, fun hEnd => hFirst ?_⟩
    · rw [bare_cons (by decide), bare_cons (by decide), bare_append]
      rfl
    · have hSplit : Paired ('/' :: '*' :: (body ++ ['*']) ++ '/' :: rest) := by
        simpa using hPaired
      have hOwn := (hSplit.of_append_cons (by decide)).tail.tail
      refine infix_of_infix_bare hOwn ?_
      rw [bare_append]
      exact hEnd
  · have hNone : '\r' ∉ '/' :: '/' :: body := by
      simpa using fun hMem => (hBody _ hMem).2 rfl
    rw [bare_of_not_mem hNone]
    refine .inr ⟨body, rfl, hBody, ?_⟩
    intro c tail hTail
    have hBehind := hPaired.of_append_right
    cases hBehind with
    | nil => cases hTail
    | @char d rest hd _ =>
        rw [bare_cons hd] at hTail
        obtain ⟨rfl, _⟩ := List.cons.inj hTail
        exact hRest d rest rfl
    | lineEnd _ =>
        rw [bare_return, bare_cons (by decide)] at hTail
        exact .inl (List.cons.inj hTail).1.symm

/-! ## Pieces -/

/-- The same piece is taken without carriage returns. -/
theorem nextPiece_bare {c : Char} (hc : c ≠ '\r') (h : Paired s) :
    nextPiece c (bare s) = ((nextPiece c s).1.bare, bare (nextPiece c s).2) := by
  by_cases hQuote : c = '"' ∨ c = '\''
  · have hBehind := behindQuote?_bare hQuote false h
    cases hRest : behindQuote? c false s with
    | none =>
        rw [hRest, Option.map_none] at hBehind
        rw [nextPiece_of_unclosed hQuote hRest, nextPiece_of_unclosed hQuote hBehind]
        rfl
    | some rest =>
        rw [hRest, Option.map_some] at hBehind
        obtain ⟨taken, rfl, hPiece⟩ := exists_literal_of_behindQuote? hQuote hRest
        obtain ⟨own, hOwn, hOther⟩ := exists_literal_of_behindQuote? hQuote hBehind
        rw [bare_append] at hOwn
        obtain rfl := List.append_cancel_right hOwn
        rw [hPiece, hOther, Piece.bare, bare_cons hc]
  obtain ⟨_, _, hOther, _⟩ | ⟨text, rest, _, hText, hPiece⟩ | hPiece := nextPiece_cases c s
  · exact absurd hOther hQuote
  · have hComment := (isComment_of_nextPiece hPiece).bare (hText ▸ h.char hc)
    have hBare : c :: bare s = bare text ++ bare rest := by
      rw [← bare_append, ← hText, bare_cons hc]
    rw [hComment.nextPiece_eq hBare, hPiece]
    rfl
  · rw [hPiece]
    by_cases hSlash : c = '/'
    · subst hSlash
      obtain ⟨hLine, hBlock⟩ := nextPiece_slash_eq_plain_iff.mp hPiece
      refine nextPiece_slash_eq_plain_iff.mpr ⟨?_, ?_⟩
      · intro body hBody
        obtain ⟨own, hOwn, _⟩ := h.exists_of_bare_eq_cons (by decide) hBody
        exact hLine own hOwn
      · intro body hBody
        obtain ⟨own, rfl, rfl⟩ := h.exists_of_bare_eq_cons (by decide) hBody
        have hNone := closeBlock?_eq_none_iff.mp (hBlock own rfl)
        exact closeBlock?_eq_none_iff.mpr fun hEnd => hNone (infix_of_infix_bare h.tail hEnd)
    · exact nextPiece_of_other hQuote hSlash

/-- The same is kept of a piece without carriage returns. -/
theorem kept_bare {c : Char} (hc : c ≠ '\r') (s : Text) :
    (nextPiece c s).1.bare.kept = bare (nextPiece c s).1.kept := by
  obtain ⟨taken, rest, _, _, _, hPiece⟩ | ⟨text, rest, _, _, hPiece⟩ | hPiece :=
    nextPiece_cases c s
  · rw [hPiece]
    rfl
  · rw [hPiece]
    show (text.filter _).filter _ = (text.filter _).filter _
    rw [List.filter_filter, List.filter_filter]
    simp only [Bool.and_comm]
  · rw [hPiece]
    exact (bare_cons hc []).symm

/-- A piece that is kept cuts no line end. -/
theorem paired_kept {c : Char} (hc : c ≠ '\r') (h : Paired s) : Paired (nextPiece c s).1.kept := by
  obtain ⟨taken, rest, hQuote, rfl, hTaken, hPiece⟩ | ⟨text, rest, _, _, hPiece⟩ | hPiece :=
    nextPiece_cases c s
  · rw [hPiece]
    exact (isLiteral_of_taken hQuote hTaken).paired (h.char hc)
  · rw [hPiece]
    exact .of_not_mem (by simp [Piece.kept])
  · rw [hPiece]
    exact Paired.nil.char hc

/-! ## Stripping -/

theorem nextPiece_lineEnd {c : Char} (hc : c = '\r' ∨ c = '\n') (s : Text) :
    nextPiece c s = (.plain c, s) := by
  rcases hc with rfl | rfl
  · rfl
  · rfl

/--
What is left of a text has its carriage returns only before line feeds, if the text has, and
is the same but for these if there are none in the text.
-/
theorem strip_bare_and_paired (h : Paired s) :
    strip (bare s) = bare (strip s) ∧ Paired (strip s) := by
  generalize hLength : s.length = length
  induction length using Nat.strongRecOn generalizing s with
  | ind length ih =>
      cases h with
      | nil =>
          rw [bare_nil, strip_nil]
          exact ⟨rfl, .nil⟩
      | @char c s hc hs =>
          have hRest : Paired (nextPiece c s).2 := by
            have hText := nextPiece_text c s
            exact (hText ▸ hs.char hc : Paired (_ ++ _)).of_append_right
          have hLess := length_nextPiece_lt c s
          obtain ⟨hBare, hPaired⟩ := ih _ (by simpa [← hLength] using hLess) hRest rfl
          rw [bare_cons hc, strip_cons, strip_cons, nextPiece_bare hc hs]
          refine ⟨?_, (paired_kept hc hs).append hPaired⟩
          rw [bare_append, ← kept_bare hc, ← hBare]
      | @lineEnd s hs =>
          have hLess : s.length < length := by
            rw [← hLength, List.length_cons, List.length_cons]
            omega
          obtain ⟨hBare, hPaired⟩ := ih s.length hLess hs rfl
          rw [bare_return, bare_cons (by decide),
            strip_cons_of_plain (nextPiece_lineEnd (.inl rfl) _),
            strip_cons_of_plain (nextPiece_lineEnd (.inr rfl) _),
            strip_cons_of_plain (nextPiece_lineEnd (.inr rfl) _), bare_return,
            bare_cons (by decide), hBare]
          exact ⟨rfl, hPaired.lineEnd⟩

/-- Every carriage return that is left stands before a line feed. -/
theorem paired_strip (h : Paired s) : Paired (strip s) := (strip_bare_and_paired h).2

/-- Without carriage returns, what is left is the same. -/
theorem strip_bare (h : Paired s) : strip (bare s) = bare (strip s) := (strip_bare_and_paired h).1

end ValueNames.Comment
