import Mathlib.Data.List.Forall2
import ValueNames.Proofs.Comment.Idempotence
import ValueNames.Proofs.Comment.Origin
import ValueNames.Text.Lines

/-!
# What stripping keeps

Literals and comments are told here by what they look like, without reading a text from
left to right. A text decomposes into them and into plain characters at which none of them
begins, and there is only one way to do so: that of the pieces.

The line feeds of a comment stay. So the lines of the stripped text are those of the text
itself, with some characters gone.

## Main results

* `decomposes_iff` — a text decomposes into its pieces, and in no other way.
* `forall₂_sublist_lines` — of each line some characters are left.
* `exists_decomposition` — what stripping keeps, told from the decomposition.
-/

namespace ValueNames.Comment

/-! ## The grammar -/

/--
What can stand between two quotes. A backslash takes the next character with it, and no
other character is the quote.
-/
inductive Quoted (quote : Char) : Text → Prop
  | nil : Quoted quote []
  | escape (c : Char) {body : Text} : Quoted quote body → Quoted quote ('\\' :: c :: body)
  | char {c : Char} {body : Text} :
      c ≠ '\\' → c ≠ quote → Quoted quote body → Quoted quote (c :: body)

/-- A string or character literal, up to the first quote that no backslash escapes. -/
def IsLiteral (text : Text) : Prop :=
  ∃ quote body, (quote = '"' ∨ quote = '\'') ∧ Quoted quote body ∧
    text = quote :: (body ++ [quote])

/-- A block comment, up to the first end mark behind its opening mark. -/
def IsBlockComment (text : Text) : Prop :=
  ∃ body, text = '/' :: '*' :: (body ++ ['*', '/']) ∧ ¬ ['*', '/'] <:+: body ++ ['*']

/-- A line comment before `rest`, which begins with a line end if it is not empty. -/
def IsLineComment (text rest : Text) : Prop :=
  ∃ body, text = '/' :: '/' :: body ∧ (∀ c ∈ body, c ≠ '\n' ∧ c ≠ '\r') ∧
    ∀ c tail, rest = c :: tail → c = '\n' ∨ c = '\r'

/-- A comment before `rest`. -/
def IsComment (text rest : Text) : Prop := IsBlockComment text ∨ IsLineComment text rest

/-- A text cut into literals, comments, and plain characters at which none of both begins. -/
inductive Decomposes : Text → List Piece → Prop
  | nil : Decomposes [] []
  | literal {text rest : Text} {ps : List Piece} :
      IsLiteral text → Decomposes rest ps → Decomposes (text ++ rest) (.literal text :: ps)
  | comment {text rest : Text} {ps : List Piece} :
      IsComment text rest → Decomposes rest ps → Decomposes (text ++ rest) (.comment text :: ps)
  | plain {c : Char} {rest : Text} {ps : List Piece} :
      (∀ text behind, c :: rest = text ++ behind → ¬ IsLiteral text ∧ ¬ IsComment text behind) →
      Decomposes rest ps → Decomposes (c :: rest) (.plain c :: ps)

/-! ## Literals -/

theorem ne_backslash_of_quote {quote : Char} (h : quote = '"' ∨ quote = '\'') : quote ≠ '\\' := by
  rcases h with rfl | rfl <;> decide

/-- A literal ends at the quote behind what is quoted. -/
theorem Quoted.behindQuote?_eq {quote : Char} {body : Text} (h : Quoted quote body)
    (hQuote : quote ≠ '\\') (back : Text) :
    behindQuote? quote false (body ++ [quote] ++ back) = some back := by
  induction h with
  | nil => simp [behindQuote?, quoteStep?, hQuote]
  | escape c _ ih =>
      simp only [List.cons_append, behindQuote?_cons, quoteStep?] at ih ⊢
      simpa using ih
  | char hBackslash hOther _ ih =>
      simp only [List.cons_append, behindQuote?_cons, quoteStep?] at ih ⊢
      simpa [hBackslash, hOther] using ih

/-- What stands before the end of a literal is quoted, together with a backslash before it. -/
theorem exists_quoted_of_behindQuote? {quote : Char} {escaped : Bool} {s rest : Text}
    (h : behindQuote? quote escaped s = some rest) :
    ∃ body, s = body ++ [quote] ++ rest ∧
      Quoted quote (if escaped then '\\' :: body else body) := by
  induction s generalizing escaped with
  | nil => cases h
  | cons c s ih =>
      rw [behindQuote?_cons] at h
      cases hStep : quoteStep? quote escaped c with
      | none =>
          obtain ⟨rfl, _, rfl⟩ := quoteStep?_eq_none_iff.mp hStep
          simp only [hStep, Option.some.injEq] at h
          exact ⟨[], by simp [h], .nil⟩
      | some next =>
          simp only [hStep] at h
          obtain ⟨body, rfl, hBody⟩ := ih h
          refine ⟨c :: body, rfl, ?_⟩
          cases escaped with
          | true =>
              obtain rfl : next = false := by simpa [quoteStep?] using hStep.symm
              exact .escape c hBody
          | false =>
              by_cases hBackslash : c = '\\'
              · obtain rfl : next = true := by simpa [quoteStep?, hBackslash] using hStep.symm
                simpa [hBackslash] using hBody
              · by_cases hOther : c = quote
                · rw [quoteStep?_eq_none_iff.mpr ⟨rfl, hBackslash, hOther⟩] at hStep
                  cases hStep
                · obtain rfl : next = false := by
                    simpa [quoteStep?, hBackslash, hOther] using hStep.symm
                  exact .char hBackslash hOther hBody

/-- What is read from a quote up to the end of the literal is one. -/
theorem isLiteral_of_taken {quote : Char} {taken : Text} (hQuote : quote = '"' ∨ quote = '\'')
    (hTaken : ∀ back, behindQuote? quote false (taken ++ back) = some back) :
    IsLiteral (quote :: taken) := by
  obtain ⟨body, hBody, hQuoted⟩ := exists_quoted_of_behindQuote? (hTaken [])
  obtain rfl : taken = body ++ [quote] := List.append_cancel_right hBody
  exact ⟨quote, body, hQuote, hQuoted, rfl⟩

theorem IsLiteral.exists_cons {text : Text} (h : IsLiteral text) : ∃ c tail, text = c :: tail := by
  obtain ⟨quote, body, _, _, rfl⟩ := h
  exact ⟨quote, _, rfl⟩

/-- A literal is taken as one piece, whatever follows it. -/
theorem IsLiteral.nextPiece_eq {c : Char} {text s rest : Text} (h : IsLiteral text)
    (hText : c :: s = text ++ rest) : nextPiece c s = (.literal text, rest) := by
  obtain ⟨quote, body, hQuote, hBody, rfl⟩ := h
  obtain ⟨rfl, rfl⟩ := List.cons.inj hText
  exact nextPiece_of_closed hQuote (hBody.behindQuote?_eq (ne_backslash_of_quote hQuote)) rest

/-! ## Comments -/

/-- The end of a block comment is the first one. -/
theorem closeBlock?_of_first {body : Text} (h : ¬ ['*', '/'] <:+: body ++ ['*']) (count : Nat)
    (rest : Text) :
    closeBlock? count (body ++ ['*', '/'] ++ rest) = some (count + body.length + 2) := by
  induction body generalizing count with
  | nil => rfl
  | cons c body ih =>
      rw [List.cons_append, List.infix_cons_iff, not_or] at h
      have hStep : closeBlock? count (c :: (body ++ ['*', '/'] ++ rest)) =
          closeBlock? (count + 1) (body ++ ['*', '/'] ++ rest) := by
        rw [closeBlock?]
        intro tail hStar hTail
        apply h.1
        cases body with
        | nil => simp at hTail
        | cons d body =>
            obtain ⟨rfl, _⟩ := List.cons.inj hTail
            exact ⟨body ++ ['*'], by rw [hStar]; rfl⟩
      rw [List.cons_append, List.cons_append, hStep, ih h.2, List.length_cons]
      congr 1
      omega

/-- Before the end that is found stands no other. -/
theorem exists_body_of_closeBlock? {count n : Nat} {s : Text} (h : closeBlock? count s = some n) :
    ∃ body rest, s = body ++ ['*', '/'] ++ rest ∧ n = count + body.length + 2 ∧
      ¬ ['*', '/'] <:+: body ++ ['*'] := by
  fun_induction closeBlock? count s with
  | case1 count => cases h
  | case2 count s =>
      cases h
      exact ⟨[], s, rfl, rfl, by decide⟩
  | case3 count c s hOther ih =>
      obtain ⟨body, rest, rfl, hLength, hFirst⟩ := ih h
      refine ⟨c :: body, rest, rfl, ?_, ?_⟩
      · rw [List.length_cons]
        omega
      · rw [List.cons_append, List.infix_cons_iff, not_or]
        refine ⟨?_, hFirst⟩
        rintro ⟨tail, hTail⟩
        obtain ⟨rfl, hBody⟩ := List.cons.inj hTail
        cases body with
        | nil => simp at hBody
        | cons d body =>
            obtain ⟨rfl, _⟩ := List.cons.inj hBody
            exact hOther (body ++ ['*', '/'] ++ rest) rfl rfl

theorem IsComment.exists_cons {text rest : Text} (h : IsComment text rest) :
    ∃ c tail, text = c :: tail := by
  rcases h with ⟨body, rfl, _⟩ | ⟨body, rfl, _⟩
  · exact ⟨_, _, rfl⟩
  · exact ⟨_, _, rfl⟩

/-- A block comment that closes is taken up to its end. -/
theorem nextPiece_of_closeBlock {body : Text} {n : Nat} (h : closeBlock? 0 body = some n) :
    nextPiece '/' ('*' :: body) = (.comment ('/' :: '*' :: body.take n), body.drop n) := by
  unfold nextPiece
  rw [if_neg (by decide), if_pos rfl]
  simp only [h]

/-- A comment is taken as one piece. -/
theorem IsComment.nextPiece_eq {c : Char} {text s rest : Text} (h : IsComment text rest)
    (hText : c :: s = text ++ rest) : nextPiece c s = (.comment text, rest) := by
  rcases h with ⟨body, rfl, hFirst⟩ | ⟨body, rfl, hBody, hRest⟩
  · obtain ⟨rfl, rfl⟩ := List.cons.inj hText
    have hClose := closeBlock?_of_first hFirst 0 rest
    have hLength : 0 + body.length + 2 = (body ++ ['*', '/']).length := by simp
    rw [hLength] at hClose
    calc nextPiece '/' ('*' :: (body ++ ['*', '/'] ++ rest))
        = (.comment ('/' :: '*' :: (body ++ ['*', '/'] ++ rest).take _),
            (body ++ ['*', '/'] ++ rest).drop _) := nextPiece_of_closeBlock hClose
      _ = _ := by rw [List.take_left, List.drop_left]
  · obtain ⟨rfl, rfl⟩ := List.cons.inj hText
    have hInside : ∀ d ∈ body, (!endsLineComment d) = true := by
      intro d hd
      simpa [endsLineComment] using hBody d hd
    have hEnd : rest.takeWhile (!endsLineComment ·) = [] ∧
        rest.dropWhile (!endsLineComment ·) = rest := by
      cases rest with
      | nil => exact ⟨rfl, rfl⟩
      | cons d tail =>
          have hMark : ¬ (!endsLineComment d) = true := by
            rcases hRest d tail rfl with rfl | rfl <;> decide
          exact ⟨List.takeWhile_cons_of_neg hMark, List.dropWhile_cons_of_neg hMark⟩
    unfold nextPiece
    rw [if_neg (by decide), if_pos rfl]
    show (Piece.comment ('/' :: '/' :: (body ++ rest).takeWhile (!endsLineComment ·)),
      (body ++ rest).dropWhile (!endsLineComment ·)) = _
    rw [List.takeWhile_append_of_pos hInside, List.dropWhile_append_of_pos hInside, hEnd.1,
      hEnd.2, List.append_nil]

/-- What is taken as a comment is one. -/
theorem isComment_of_nextPiece {c : Char} {text s rest : Text}
    (h : nextPiece c s = (.comment text, rest)) : IsComment text rest := by
  unfold nextPiece at h
  split at h
  · split at h <;> cases h
  · split at h
    · split at h
      · rename_i body
        split at h
        · rename_i n hClose
          obtain ⟨own, back, rfl, rfl, hFirst⟩ := exists_body_of_closeBlock? hClose
          have hLength : 0 + own.length + 2 = (own ++ ['*', '/']).length := by simp
          rw [hLength, List.take_left, List.drop_left] at h
          cases h
          exact .inl ⟨own, rfl, hFirst⟩
        · cases h
      · rename_i body
        cases h
        refine .inr ⟨_, rfl, ?_, ?_⟩
        · intro d hd
          have hInside := List.all_eq_true.mp List.all_takeWhile d hd
          simpa [endsLineComment] using hInside
        · intro d tail hTail
          have hHead := List.head?_dropWhile_not (!endsLineComment ·) body
          rw [hTail] at hHead
          simpa [endsLineComment, ← Decidable.or_iff_not_imp_left] using hHead
      · cases h
    · cases h

/-! ## The decomposition of a text -/

/-- Where neither a literal nor a comment begins, a plain character is taken. -/
theorem nextPiece_of_none {c : Char} {s : Text}
    (h : ∀ text rest, c :: s = text ++ rest → ¬ IsLiteral text ∧ ¬ IsComment text rest) :
    nextPiece c s = (.plain c, s) := by
  obtain ⟨taken, rest, hQuote, rfl, hTaken, _⟩ | ⟨text, rest, _, hText, hPiece⟩ | hPiece :=
    nextPiece_cases c s
  · exact absurd (isLiteral_of_taken hQuote hTaken) (h (c :: taken) rest rfl).1
  · exact absurd (isComment_of_nextPiece hPiece) (h text rest hText).2
  · exact hPiece

/-- The pieces of a text decompose it. -/
theorem decomposes_pieces (s : Text) : Decomposes s (pieces s) := by
  fun_induction pieces s with
  | case1 => exact .nil
  | case2 c s hShorter ih =>
      obtain ⟨taken, rest, hQuote, rfl, hTaken, hPiece⟩ | ⟨text, rest, _, hText, hPiece⟩ |
        hPiece := nextPiece_cases c s
      · rw [hPiece] at ih ⊢
        exact .literal (isLiteral_of_taken hQuote hTaken) ih
      · rw [hPiece] at ih ⊢
        rw [hText]
        exact .comment (isComment_of_nextPiece hPiece) ih
      · rw [hPiece] at ih ⊢
        refine .plain (fun text behind hText => ⟨fun hLiteral => ?_, fun hComment => ?_⟩) ih
        · rw [hLiteral.nextPiece_eq hText] at hPiece
          cases hPiece
        · rw [hComment.nextPiece_eq hText] at hPiece
          cases hPiece

/-- A text decomposes in one way only. -/
theorem Decomposes.eq_pieces {s : Text} {ps : List Piece} (h : Decomposes s ps) :
    ps = pieces s := by
  have hPieces : ∀ {piece : Piece} {c : Char} {t rest : Text},
      nextPiece c t = (piece, rest) → pieces (c :: t) = piece :: pieces rest := by
    intro piece c t rest hNext
    rw [pieces, hNext]
  induction h with
  | nil => rw [pieces]
  | @literal text rest ps hLiteral _ ih =>
      obtain ⟨c, tail, rfl⟩ := hLiteral.exists_cons
      rw [ih]
      exact (hPieces (hLiteral.nextPiece_eq rfl)).symm
  | @comment text rest ps hComment _ ih =>
      obtain ⟨c, tail, rfl⟩ := hComment.exists_cons
      rw [ih]
      exact (hPieces (hComment.nextPiece_eq rfl)).symm
  | @plain c rest ps hPlain _ ih =>
      rw [ih]
      exact (hPieces (nextPiece_of_none hPlain)).symm

/-- A text decomposes into its pieces, and in no other way. -/
theorem decomposes_iff {s : Text} {ps : List Piece} : Decomposes s ps ↔ ps = pieces s := by
  constructor
  · exact Decomposes.eq_pieces
  · rintro rfl
    exact decomposes_pieces s

/-! ## Lines -/

/-- If the line feeds are kept, so are the lines, each with some of its characters. -/
theorem forall₂_sublist_splitOn {chars : List (Char × Bool)}
    (h : ∀ char ∈ chars, char.1 = '\n' → char.2 = true) :
    List.Forall₂ List.Sublist (Text.splitOn '\n' (keptOf chars))
      (Text.splitOn '\n' (textOf chars)) := by
  induction chars with
  | nil => exact .cons .slnil .nil
  | cons char chars ih =>
      obtain ⟨c, kept⟩ := char
      have hLines := ih fun other hOther => h other (by simp [hOther])
      by_cases hNewline : c = '\n'
      · obtain rfl : kept = true := h (c, kept) (by simp) hNewline
        show List.Forall₂ _ (Text.splitOn '\n' (c :: keptOf chars))
          (Text.splitOn '\n' (c :: textOf chars))
        simp only [Text.splitOn, if_pos hNewline]
        exact .cons .slnil hLines
      · obtain ⟨line, lines, hText⟩ :=
          List.exists_cons_of_ne_nil (Text.splitOn_ne_nil '\n' (textOf chars))
        obtain ⟨left, others, hKept⟩ :=
          List.exists_cons_of_ne_nil (Text.splitOn_ne_nil '\n' (keptOf chars))
        rw [hText, hKept] at hLines
        obtain ⟨hLine, hOthers⟩ := List.forall₂_cons.mp hLines
        cases kept with
        | true =>
            show List.Forall₂ _ (Text.splitOn '\n' (c :: keptOf chars))
              (Text.splitOn '\n' (c :: textOf chars))
            simp only [Text.splitOn, if_neg hNewline, hText, hKept]
            exact .cons (hLine.cons_cons c) hOthers
        | false =>
            show List.Forall₂ _ (Text.splitOn '\n' (keptOf chars))
              (Text.splitOn '\n' (c :: textOf chars))
            simp only [Text.splitOn, if_neg hNewline, hText, hKept]
            exact .cons (hLine.cons c) hOthers

/-- Of every line of a text stripping leaves some characters, and no line is lost. -/
theorem forall₂_sublist_lines (s : Text) :
    List.Forall₂ List.Sublist (Text.splitOn '\n' (strip s)) (Text.splitOn '\n' s) := by
  have hLines := forall₂_sublist_splitOn fun char hChar => kept_of_newline (s := s) hChar
  rwa [keptOf_marked, textOf_marked] at hLines

/-! ## Stripping -/

/-- Without comments nothing is lost. -/
theorem flatMap_kept_eq_flatMap_text {ps : List Piece} (h : ∀ text, Piece.comment text ∉ ps) :
    ps.flatMap Piece.kept = ps.flatMap Piece.text := by
  refine List.flatMap_congr fun piece hPiece => ?_
  cases piece with
  | literal text => rfl
  | comment text => exact absurd hPiece (h text)
  | plain c => rfl

/--
A text decomposes in exactly one way into literals, comments and plain characters, and
stripping puts together what it keeps of the pieces: literals and plain characters, and of a
comment its line feeds. So the text keeps its line feeds, of every line a part is left, and
a text without comments is left as it is.
-/
theorem exists_decomposition (s : Text) :
    ∃ ps, Decomposes s ps ∧ (∀ other, Decomposes s other → other = ps) ∧
      ps.flatMap Piece.text = s ∧
      strip s = ps.flatMap (fun
        | .literal text => text
        | .comment text => text.filter (· = '\n')
        | .plain c => [c]) ∧
      (strip s).count '\n' = s.count '\n' ∧
      List.Forall₂ List.Sublist (Text.splitOn '\n' (strip s)) (Text.splitOn '\n' s) ∧
      ((∀ text, Piece.comment text ∉ ps) → strip s = s) := by
  refine ⟨pieces s, decomposes_pieces s, fun other => Decomposes.eq_pieces,
    pieces_flatMap_text s, ?_, count_newline_strip s, forall₂_sublist_lines s, fun hNone => ?_⟩
  · rw [strip_eq_flatMap_kept]
    exact List.flatMap_congr fun piece _ => by cases piece <;> rfl
  · calc strip s = (pieces s).flatMap Piece.kept := strip_eq_flatMap_kept s
      _ = (pieces s).flatMap Piece.text := flatMap_kept_eq_flatMap_text hNone
      _ = s := pieces_flatMap_text s

/-- A comment mark in a literal, a quote without an end, and a comment over two lines. -/
example :
    pieces "'/*'\"/*\n*/".toList =
        [.literal "'/*'".toList, .plain '"', .comment "/*\n*/".toList] ∧
      strip "'/*'\"/*\n*/".toList = "'/*'\"\n".toList := by
  rw [strip_eq_flatMap_kept]
  decide +kernel

end ValueNames.Comment
