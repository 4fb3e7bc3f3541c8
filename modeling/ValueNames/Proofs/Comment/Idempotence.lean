import ValueNames.Comment
import ValueNames.Output.File

/-!
# Stripping twice

Taking a comment out puts the text around it together, and what meets there may
be read in another way: a backslash before a comment escapes the character
behind it, so that a quote without an end can find one. Nothing is lost by
that. Marks of comments never meet, and a quote that finds its end only in the
stripped text makes a literal of text that is stripped already.

## Main results

* `exists_strip_behind` — behind the late end of a quote stands stripped text.
* `closeBlock?_strip` — stripping makes no `*/`.
* `strip_strip` — stripped text has no comments.
* `strip_unnoticed` — neither a scan nor the generated file tells a text from
  its stripped form.
-/

namespace ValueNames.Comment

/-! ## Quotes -/

/--
Reads a character inside a literal: whether it escapes the next one, or nothing
if it is the end of the literal.
-/
def quoteStep? (quote : Char) (escaped : Bool) (c : Char) : Option Bool :=
  if escaped then some false
  else if c = '\\' then some true
  else if c = quote then none
  else some false

/-- What stands behind the end of a literal; `escaped` tells how the text before it leaves off. -/
def behindQuote? (quote : Char) (escaped : Bool) : Text → Option Text
  | [] => none
  | c :: s =>
      match quoteStep? quote escaped c with
      | none => some s
      | some escaped => behindQuote? quote escaped s

theorem behindQuote?_cons (quote : Char) (escaped : Bool) (c : Char) (s : Text) :
    behindQuote? quote escaped (c :: s) =
      match quoteStep? quote escaped c with
      | none => some s
      | some escaped => behindQuote? quote escaped s :=
  rfl

/-- Only the quote itself ends a literal. -/
theorem quoteStep?_eq_none_iff {quote c : Char} {escaped : Bool} :
    quoteStep? quote escaped c = none ↔ escaped = false ∧ c ≠ '\\' ∧ c = quote := by
  unfold quoteStep?
  split
  · simp [*]
  · split <;> simp [*]

/--
A text in front of another is either passed over, and how it leaves off does
not depend on what follows, or it has the end of the literal.
-/
theorem behindQuote?_append (quote : Char) (escaped : Bool) (front : Text) :
    (∃ left, ∀ back, behindQuote? quote escaped (front ++ back) = behindQuote? quote left back) ∨
      quote ∈ front ∧
        ∃ rest, ∀ back, behindQuote? quote escaped (front ++ back) = some (rest ++ back) := by
  induction front generalizing escaped with
  | nil => exact .inl ⟨escaped, fun back => rfl⟩
  | cons c front ih =>
      simp only [List.cons_append, behindQuote?_cons]
      cases hStep : quoteStep? quote escaped c with
      | none =>
          obtain ⟨_, _, rfl⟩ := quoteStep?_eq_none_iff.mp hStep
          exact .inr ⟨by simp, front, fun back => rfl⟩
      | some next =>
          rcases ih next with hPassed | ⟨hMem, hEnd⟩
          · exact .inl hPassed
          · exact .inr ⟨List.mem_cons_of_mem c hMem, hEnd⟩

/-- What is read up to the end of a literal does not depend on what follows. -/
theorem exists_taken_of_behindQuote? {quote : Char} {escaped : Bool} {s rest : Text}
    (h : behindQuote? quote escaped s = some rest) :
    ∃ taken, s = taken ++ rest ∧
      ∀ back, behindQuote? quote escaped (taken ++ back) = some back := by
  induction s generalizing escaped with
  | nil => cases h
  | cons c s ih =>
      rw [behindQuote?_cons] at h
      cases hStep : quoteStep? quote escaped c with
      | none =>
          simp only [hStep, Option.some.injEq] at h
          subst h
          refine ⟨[c], rfl, fun back => ?_⟩
          simp [behindQuote?_cons, hStep]
      | some next =>
          simp only [hStep] at h
          obtain ⟨taken, rfl, hTaken⟩ := ih h
          refine ⟨c :: taken, rfl, fun back => ?_⟩
          simp [behindQuote?_cons, hStep, hTaken back]

/-- Counting up to the end of a literal finds what stands behind it. -/
theorem closeQuote?_eq (quote : Char) (count : Nat) (s : Text) :
    closeQuote? quote count s =
      (behindQuote? quote false s).map fun rest => count + (s.length - rest.length) := by
  have hShorter : ∀ {t rest : Text}, behindQuote? quote false t = some rest →
      rest.length ≤ t.length := by
    intro t rest h
    obtain ⟨taken, rfl, _⟩ := exists_taken_of_behindQuote? h
    simp
  -- A character that is no backslash, as the last two equations of the count have it.
  have hOther : ∀ {c : Char} {t : Text}, (c = '\\' → t = [] → False) →
      (∀ d u, c = '\\' → t = d :: u → False) → ¬ c = '\\' := by
    intro c t hShort hLong hBackslash
    cases t with
    | nil => exact hShort hBackslash rfl
    | cons d u => exact hLong d u hBackslash rfl
  fun_induction closeQuote? quote count s with
  | case1 count => rfl
  | case2 count => rfl
  | case3 count c s ih =>
      rw [ih, behindQuote?_cons, quoteStep?, if_neg (by decide), if_pos rfl]
      show _ = (behindQuote? quote false s).map _
      cases hRest : behindQuote? quote false s with
      | none => rfl
      | some rest =>
          have hLength := hShorter hRest
          simp only [Option.map_some, List.length_cons, Option.some.injEq]
          omega
  | case4 count s hShort hLong =>
      have hBackslash := hOther hShort hLong
      simp [behindQuote?, quoteStep?, hBackslash]
  | case5 count c s hShort hLong hQuote ih =>
      have hBackslash := hOther hShort hLong
      rw [ih, behindQuote?_cons, quoteStep?, if_neg (by decide), if_neg hBackslash, if_neg hQuote]
      show _ = (behindQuote? quote false s).map _
      cases hRest : behindQuote? quote false s with
      | none => rfl
      | some rest =>
          have hLength := hShorter hRest
          simp only [Option.map_some, List.length_cons, Option.some.injEq]
          omega

/-! ## The next piece -/

/-- A quote with an end opens a literal, whatever follows the literal. -/
theorem nextPiece_of_closed {quote : Char} {taken : Text} (hQuote : quote = '"' ∨ quote = '\'')
    (hTaken : ∀ back, behindQuote? quote false (taken ++ back) = some back) (back : Text) :
    nextPiece quote (taken ++ back) = (.literal (quote :: taken), back) := by
  have hClose : closeQuote? quote 0 (taken ++ back) = some taken.length := by
    rw [closeQuote?_eq, hTaken back, Option.map_some, List.length_append]
    congr 1
    omega
  unfold nextPiece
  rw [if_pos hQuote, hClose]
  simp

/-- A quote without an end is a plain character. -/
theorem nextPiece_of_unclosed {quote : Char} {s : Text} (hQuote : quote = '"' ∨ quote = '\'')
    (h : behindQuote? quote false s = none) : nextPiece quote s = (.plain quote, s) := by
  unfold nextPiece
  rw [if_pos hQuote, closeQuote?_eq, h]
  rfl

/-- Only a quote without an end is a plain character. -/
theorem behindQuote?_eq_none_of_plain {quote : Char} {s : Text}
    (hQuote : quote = '"' ∨ quote = '\'') (h : nextPiece quote s = (.plain quote, s)) :
    behindQuote? quote false s = none := by
  cases hRest : behindQuote? quote false s with
  | none => rfl
  | some rest =>
      obtain ⟨taken, rfl, hTaken⟩ := exists_taken_of_behindQuote? hRest
      rw [nextPiece_of_closed hQuote hTaken] at h
      cases h

/-- A character that opens nothing is plain. -/
theorem nextPiece_of_other {c : Char} {s : Text} (hQuote : ¬ (c = '"' ∨ c = '\''))
    (hSlash : c ≠ '/') : nextPiece c s = (.plain c, s) := by
  unfold nextPiece
  rw [if_neg hQuote, if_neg hSlash]

/-- A slash is a plain character where it begins no comment. -/
theorem nextPiece_slash_eq_plain_iff {s : Text} :
    nextPiece '/' s = (.plain '/', s) ↔
      (∀ body, s ≠ '/' :: body) ∧ ∀ body, s = '*' :: body → closeBlock? 0 body = none := by
  unfold nextPiece
  rw [if_neg (by decide), if_pos rfl]
  split
  · rename_i body
    cases hClose : closeBlock? 0 body <;> simp [hClose]
  · simp
  · rename_i hBlock hLine
    simp only [true_iff]
    exact ⟨hLine, fun body h => (hBlock body h).elim⟩

/--
What a piece can be: a literal from a quote to its end, a comment that begins
with a slash, or the plain character.
-/
theorem nextPiece_cases (c : Char) (s : Text) :
    (∃ taken rest, (c = '"' ∨ c = '\'') ∧ s = taken ++ rest ∧
        (∀ back, behindQuote? c false (taken ++ back) = some back) ∧
        nextPiece c s = (.literal (c :: taken), rest)) ∨
      (∃ text rest, c = '/' ∧ c :: s = text ++ rest ∧ nextPiece c s = (.comment text, rest)) ∨
      nextPiece c s = (.plain c, s) := by
  by_cases hQuote : c = '"' ∨ c = '\''
  · cases hRest : behindQuote? c false s with
    | none => exact .inr (.inr (nextPiece_of_unclosed hQuote hRest))
    | some rest =>
        obtain ⟨taken, rfl, hTaken⟩ := exists_taken_of_behindQuote? hRest
        exact .inl ⟨taken, rest, hQuote, rfl, hTaken, nextPiece_of_closed hQuote hTaken rest⟩
  by_cases hSlash : c = '/'
  · subst hSlash
    right
    unfold nextPiece
    rw [if_neg (by decide), if_pos rfl]
    split
    · rename_i body
      cases closeBlock? 0 body with
      | none => exact .inr rfl
      | some n => exact .inl ⟨'/' :: '*' :: body.take n, body.drop n, rfl, by simp, rfl⟩
    · rename_i body
      exact .inl ⟨'/' :: '/' :: body.takeWhile (!endsLineComment ·),
        body.dropWhile (!endsLineComment ·), rfl, by simp, rfl⟩
    · exact .inr rfl
  · exact .inr (.inr (nextPiece_of_other hQuote hSlash))

theorem strip_nil : strip [] = [] := by
  simp [strip_eq_flatMap_kept, pieces]

theorem strip_cons (c : Char) (s : Text) :
    strip (c :: s) = (nextPiece c s).1.kept ++ strip (nextPiece c s).2 := by
  simp [strip_eq_flatMap_kept, pieces]

theorem strip_cons_of_plain {c : Char} {s : Text} (h : nextPiece c s = (.plain c, s)) :
    strip (c :: s) = c :: strip s := by
  rw [strip_cons, h]
  rfl

/-- A literal is kept whatever follows it. -/
theorem strip_literal {quote : Char} {taken : Text} (hQuote : quote = '"' ∨ quote = '\'')
    (hTaken : ∀ back, behindQuote? quote false (taken ++ back) = some back) (back : Text) :
    strip (quote :: (taken ++ back)) = quote :: (taken ++ strip back) := by
  rw [strip_cons, nextPiece_of_closed hQuote hTaken]
  rfl

/-- Of a comment line feeds are kept. -/
theorem kept_comment (text : Text) :
    (Piece.comment text).kept = List.replicate (text.count '\n') '\n' :=
  List.filter_eq '\n'

/-- Line feeds are kept. -/
theorem strip_newlines (n : Nat) (back : Text) :
    strip (List.replicate n '\n' ++ back) = List.replicate n '\n' ++ strip back := by
  induction n with
  | zero => rfl
  | succ n ih =>
      have hPlain := nextPiece_of_other (c := '\n') (s := List.replicate n '\n' ++ back)
        (by decide) (by decide)
      rw [List.replicate_succ, List.cons_append, strip_cons_of_plain hPlain, ih]
      rfl

/-! ## Late ends of quotes -/

/--
A quote that is open through the text from a piece on, but finds its end in the
stripped text: both readings pass over the piece, or it is a plain character
that the stripped reading ends at.
-/
theorem exists_behind_piece {quote c : Char} {s rest : Text} {written stripped : Bool}
    (hQuote : quote = '"' ∨ quote = '\'') (hOpen : behindQuote? quote written (c :: s) = none)
    (hEnd : behindQuote? quote stripped (strip (c :: s)) = some rest) :
    (∃ written stripped, behindQuote? quote written (nextPiece c s).2 = none ∧
        behindQuote? quote stripped (strip (nextPiece c s).2) = some rest) ∨
      rest = strip s := by
  obtain ⟨taken, back, hLiteral, rfl, hTaken, hPiece⟩ | ⟨text, back, _, hText, hPiece⟩ | hPiece :=
    nextPiece_cases c s
  · rw [hPiece]
    rw [strip_literal hLiteral hTaken, behindQuote?_cons] at hEnd
    rw [behindQuote?_cons] at hOpen
    have hBackslash : c ≠ '\\' := by
      rcases hLiteral with rfl | rfl <;> decide
    by_cases hSame : c = quote
    · -- The open quote would end with this literal at the latest.
      subst hSame
      cases written with
      | false => simp [quoteStep?, hBackslash] at hOpen
      | true => simp [quoteStep?, hTaken back] at hOpen
    · -- Both readings go on behind the first quote of the literal, and so through it alike.
      have hStep : ∀ escaped, quoteStep? quote escaped c = some false := by
        intro escaped
        simp [quoteStep?, hBackslash, hSame]
      simp only [hStep] at hOpen hEnd
      rcases behindQuote?_append quote false taken with ⟨left, hLeft⟩ | ⟨_, found, hFound⟩
      · rw [hLeft] at hOpen hEnd
        exact .inl ⟨left, left, hOpen, hEnd⟩
      · rw [hFound] at hOpen
        cases hOpen
  · rw [hPiece]
    rw [strip_cons, hPiece, kept_comment] at hEnd
    rw [hText] at hOpen
    rcases behindQuote?_append quote written text with ⟨left, hLeft⟩ | ⟨_, found, hFound⟩
    · rw [hLeft] at hOpen
      rcases behindQuote?_append quote stripped (List.replicate (text.count '\n') '\n') with
        ⟨after, hAfter⟩ | ⟨hMem, _⟩
      · rw [hAfter] at hEnd
        exact .inl ⟨left, after, hOpen, hEnd⟩
      · obtain rfl := List.eq_of_mem_replicate hMem
        simp at hQuote
    · rw [hFound] at hOpen
      cases hOpen
  · rw [hPiece]
    rw [strip_cons_of_plain hPiece, behindQuote?_cons] at hEnd
    rw [behindQuote?_cons] at hOpen
    cases hWritten : quoteStep? quote written c with
    | none => simp [hWritten] at hOpen
    | some left =>
        simp only [hWritten] at hOpen
        cases hStripped : quoteStep? quote stripped c with
        | none =>
            simp only [hStripped, Option.some.injEq] at hEnd
            exact .inr hEnd.symm
        | some after =>
            simp only [hStripped] at hEnd
            exact .inl ⟨left, after, hOpen, hEnd⟩

/--
A quote that is open through a text but finds its end in the stripped text has
the stripped form of some text behind it, however the two readings left off
before.
-/
theorem exists_strip_behind {quote : Char} {s rest : Text} {written stripped : Bool}
    (hQuote : quote = '"' ∨ quote = '\'') (hOpen : behindQuote? quote written s = none)
    (hEnd : behindQuote? quote stripped (strip s) = some rest) :
    ∃ tail, tail.length ≤ s.length ∧ rest = strip tail := by
  induction s using pieces.induct generalizing written stripped with
  | case1 => simp [strip_nil, behindQuote?] at hEnd
  | case2 c s hShorter ih =>
      rcases exists_behind_piece hQuote hOpen hEnd with ⟨_, _, hLater, hFound⟩ | hHere
      · obtain ⟨tail, hTail, hRest⟩ := ih hLater hFound
        refine ⟨tail, ?_, hRest⟩
        rw [List.length_cons]
        omega
      · exact ⟨s, by simp, hHere⟩

/-! ## Ends of block comments -/

/-- Stripped text begins with a slash only where the text did. -/
theorem exists_slash_of_strip {s back : Text} (h : strip s = '/' :: back) :
    ∃ tail, s = '/' :: tail := by
  cases s with
  | nil =>
      rw [strip_nil] at h
      cases h
  | cons c s =>
      obtain ⟨taken, rest, hQuote, rfl, hTaken, _⟩ | ⟨_, _, rfl, _⟩ | hPiece := nextPiece_cases c s
      · rw [strip_literal hQuote hTaken] at h
        obtain ⟨rfl, _⟩ := List.cons.inj h
        simp at hQuote
      · exact ⟨s, rfl⟩
      · rw [strip_cons_of_plain hPiece] at h
        obtain ⟨rfl, _⟩ := List.cons.inj h
        exact ⟨s, rfl⟩

/-- No end of a block comment is found exactly where the text has none. -/
theorem closeBlock?_eq_none_iff {count : Nat} {s : Text} :
    closeBlock? count s = none ↔ ¬ ['*', '/'] <:+: s := by
  fun_induction closeBlock? count s with
  | case1 count => simp
  | case2 count s =>
      have hHere : ['*', '/'] <:+: '*' :: '/' :: s := ⟨[], s, rfl⟩
      simp [hHere]
  | case3 count c s hOther ih =>
      have hHere : ¬ ['*', '/'] <+: c :: s := by
        rintro ⟨back, hBack⟩
        obtain ⟨rfl, rfl⟩ := List.cons.inj hBack
        exact hOther back rfl rfl
      rw [ih, List.infix_cons_iff, or_iff_right hHere]

/--
Behind a text stands another one that brings no end of a block comment with it,
and begins with a slash only if the one before did: then no end is made.
-/
theorem not_blockEnd_append {front back other : Text} (h : ¬ ['*', '/'] <:+: front ++ back)
    (hOther : ¬ ['*', '/'] <:+: other)
    (hSlash : ∀ tail, other = '/' :: tail → ∃ tail, back = '/' :: tail) :
    ¬ ['*', '/'] <:+: front ++ other := by
  induction front with
  | nil => exact hOther
  | cons c front ih =>
      rw [List.cons_append, List.infix_cons_iff, not_or] at h ⊢
      refine ⟨?_, ih h.2⟩
      intro hHere
      apply h.1
      cases front with
      | cons d front => simpa using hHere
      | nil =>
          obtain ⟨tail, hTail⟩ := hHere
          obtain ⟨rfl, hOwn⟩ := List.cons.inj hTail
          obtain ⟨own, rfl⟩ := hSlash tail hOwn.symm
          exact ⟨own, rfl⟩

theorem not_blockEnd_newlines {n : Nat} {back : Text} (h : ¬ ['*', '/'] <:+: back) :
    ¬ ['*', '/'] <:+: List.replicate n '\n' ++ back := by
  induction n with
  | zero => exact h
  | succ n ih =>
      rw [List.replicate_succ, List.cons_append, List.infix_cons_iff, not_or]
      exact ⟨by simp, ih⟩

/-- Stripping makes no end of a block comment. -/
theorem closeBlock?_strip {count : Nat} {s : Text} (h : closeBlock? count s = none) :
    closeBlock? count (strip s) = none := by
  rw [closeBlock?_eq_none_iff] at h ⊢
  induction s using pieces.induct with
  | case1 => rwa [strip_nil]
  | case2 c s _ ih =>
      have hLater : ¬ ['*', '/'] <:+: strip (nextPiece c s).2 := by
        apply ih
        intro hEnd
        apply h
        rw [← nextPiece_text c s]
        exact hEnd.trans (List.suffix_append _ _).isInfix
      have hSlash : ∀ tail, strip (nextPiece c s).2 = '/' :: tail →
          ∃ tail, (nextPiece c s).2 = '/' :: tail := fun _ => exists_slash_of_strip
      obtain ⟨taken, rest, hQuote, rfl, hTaken, hPiece⟩ | ⟨text, rest, _, _, hPiece⟩ | hPiece :=
        nextPiece_cases c s
      · rw [hPiece] at hLater hSlash
        rw [strip_literal hQuote hTaken, ← List.cons_append]
        exact not_blockEnd_append h hLater hSlash
      · rw [hPiece] at hLater
        rw [strip_cons, hPiece, kept_comment]
        exact not_blockEnd_newlines hLater
      · rw [hPiece] at hLater hSlash
        rw [strip_cons_of_plain hPiece]
        have hFront : ¬ ['*', '/'] <:+: [c] ++ s := h
        exact not_blockEnd_append hFront hLater hSlash

/-- A plain slash stays plain in the stripped text. -/
theorem nextPiece_slash_strip {s : Text} (h : nextPiece '/' s = (.plain '/', s)) :
    nextPiece '/' (strip s) = (.plain '/', strip s) := by
  obtain ⟨hLine, hBlock⟩ := nextPiece_slash_eq_plain_iff.mp h
  refine nextPiece_slash_eq_plain_iff.mpr ⟨?_, ?_⟩
  · intro body hBody
    obtain ⟨tail, hTail⟩ := exists_slash_of_strip hBody
    exact hLine tail hTail
  · intro body hBody
    cases s with
    | nil =>
        rw [strip_nil] at hBody
        cases hBody
    | cons c s =>
        obtain ⟨taken, rest, hQuote, rfl, hTaken, _⟩ | ⟨_, _, rfl, _⟩ | hPiece :=
          nextPiece_cases c s
        · rw [strip_literal hQuote hTaken] at hBody
          obtain ⟨rfl, _⟩ := List.cons.inj hBody
          simp at hQuote
        · exact (hLine s rfl).elim
        · rw [strip_cons_of_plain hPiece] at hBody
          obtain ⟨rfl, rfl⟩ := List.cons.inj hBody
          exact closeBlock?_strip (hBlock s rfl)

/-! ## Stripping again -/

/-- Stripped text has no comments left. -/
theorem strip_strip (s : Text) : strip (strip s) = strip s := by
  -- Not along the pieces: a late end of a quote goes on with a text that is only shorter.
  induction hLength : s.length using Nat.strongRecOn generalizing s with
  | _ length ih =>
      cases s with
      | nil => rw [strip_nil, strip_nil]
      | cons c s =>
          have hShorter : ∀ tail : Text, tail.length ≤ s.length →
              strip (strip tail) = strip tail := by
            intro tail hTail
            refine ih tail.length ?_ tail rfl
            rw [← hLength, List.length_cons]
            omega
          have hNext := length_nextPiece_lt c s
          obtain ⟨taken, rest, hQuote, rfl, hTaken, hPiece⟩ | ⟨text, rest, _, _, hPiece⟩ | hPiece :=
            nextPiece_cases c s
          · rw [hPiece] at hNext
            rw [strip_literal hQuote hTaken, strip_literal hQuote hTaken,
              hShorter rest (by simp only at hNext; omega)]
          · rw [hPiece] at hNext
            rw [strip_cons, hPiece, kept_comment, strip_newlines,
              hShorter rest (by simp only at hNext; omega)]
          · have hSame := hShorter s Nat.le.refl
            rw [strip_cons_of_plain hPiece]
            by_cases hQuote : c = '"' ∨ c = '\''
            · have hOpen := behindQuote?_eq_none_of_plain hQuote hPiece
              cases hEnd : behindQuote? c false (strip s) with
              | none =>
                  rw [strip_cons_of_plain (nextPiece_of_unclosed hQuote hEnd), hSame]
              | some rest =>
                  obtain ⟨tail, hTail, rfl⟩ := exists_strip_behind hQuote hOpen hEnd
                  obtain ⟨taken, hStrip, hTaken⟩ := exists_taken_of_behindQuote? hEnd
                  rw [hStrip, strip_literal hQuote hTaken, hShorter tail hTail]
            by_cases hSlash : c = '/'
            · subst hSlash
              rw [strip_cons_of_plain (nextPiece_slash_strip hPiece), hSame]
            · rw [strip_cons_of_plain (nextPiece_of_other hQuote hSlash), hSame]

/--
Stripping a text again changes nothing. So scanning its stripped form gives the
same header, and the file generated from it is the same.
-/
theorem strip_unnoticed (s : Text) :
    strip (strip s) = strip s ∧
      ∀ settings : Settings,
        ScannedHeader.ofText (strip s) settings = ScannedHeader.ofText s settings ∧
          generate (strip s) settings = generate s settings := by
  have hSame := strip_strip s
  refine ⟨hSame, fun settings => ?_⟩
  have hHeader : ScannedHeader.ofText (strip s) settings = ScannedHeader.ofText s settings := by
    simp only [ScannedHeader.ofText, hSame]
  exact ⟨hHeader, by rw [generate, hHeader, generate]⟩

/-- A quote whose end is escaped only until the comment between the backslashes is gone. -/
example :
    pieces "\"\\/**/\\\"".toList =
        [.plain '"', .plain '\\', .comment "/**/".toList, .plain '\\', .plain '"'] ∧
      pieces (strip "\"\\/**/\\\"".toList) = [.literal "\"\\\\\"".toList] := by
  rw [strip_eq_flatMap_kept]
  decide +kernel

end ValueNames.Comment
