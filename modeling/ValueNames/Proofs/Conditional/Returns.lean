import ValueNames.Proofs.Conditional.Seam
import ValueNames.Proofs.Item.Returns

/-!
# Directive lines without carriage returns

A line feed behind a backslash joins the next line, and so does one behind a backslash and a
carriage return. So the same lines are joined without the carriage returns, and the same
directive lines are read. Only the carriage returns in their conditions are gone.

## Main results

* `logicalLine_bare` — the same lines are joined.
* `directiveLines_bare` — the same directive lines are read.
-/

namespace ValueNames

open Text

/-- The directive line in the text without carriage returns. -/
def DirectiveLine.bareIn (source : Text) (line : DirectiveLine) : DirectiveLine :=
  ⟨line.directive, bare line.condition, line.span.bareIn source⟩

/-- A directive line begins with a blank or its mark. -/
theorem DirectiveLine.StandsIn.isSolid_start {source : Text} {line : DirectiveLine}
    (h : line.StandsIn source) : IsSolid source line.span.start := by
  obtain ⟨front, blanks, text, back, rfl, hBlanks, _, hSpan⟩ := h
  rw [hSpan]
  cases blanks with
  | nil => exact ⟨front, '#', text ++ back, by simp, by decide, rfl⟩
  | cons c blanks =>
      refine ⟨front, c, blanks ++ '#' :: text ++ back, by simp, ?_, rfl⟩
      rintro rfl
      exact absurd (hBlanks '\r' (by simp)) (by decide)

namespace Conditional

variable {s : Text}

/-! ## Keywords -/

theorem openedBy?_bare (h : Paired s) (opener : Opener) :
    openedBy? (bare s) opener =
      (openedBy? s opener).map fun (directive, rest) => (directive, bare rest) := by
  have hWord : '\r' ∉ opener.word ∧ '\n' ∉ opener.word := by cases opener <;> decide
  unfold openedBy?
  rw [stripLead?_bare hWord.1 hWord.2 h]
  cases hLead : stripLead? opener.word s with
  | none => rfl
  | some tail =>
      have hTail : Paired tail :=
        h.of_suffix ⟨opener.word, (stripLead?_eq_some_iff.mp hLead).symm⟩
      cases hTail with
      | nil => rfl
      | @char c rest hc _ =>
          rw [Option.map_some, bare_cons hc]
          show (if isSpaceOrTab c = true then _ else _) =
            (if isSpaceOrTab c = true then _ else _ : Option (Directive × Text)).map _
          split
          · rfl
          · rfl
      | lineEnd _ => rfl

theorem closedBy?_bare (h : Paired s) (closer : Closer) :
    closedBy? (bare s) closer =
      (closedBy? s closer).map fun (directive, rest) => (directive, bare rest) := by
  have hWord : '\r' ∉ closer.word ∧ '\n' ∉ closer.word := by cases closer <;> decide
  unfold closedBy?
  rw [stripLead?_bare hWord.1 hWord.2 h, Option.map_map, Option.map_map]
  rfl

/-- Keywords hold no part of a line end, and none is needed behind them. -/
theorem keyword?_bare (h : Paired s) :
    keyword? (bare s) = (keyword? s).map fun (directive, rest) => (directive, bare rest) := by
  simp only [keyword?, List.findSome?_cons, List.findSome?_nil, openedBy?_bare h,
    closedBy?_bare h]
  cases openedBy? s .expression with
  | some found => rfl
  | none =>
      cases openedBy? s .undefined with
      | some found => rfl
      | none =>
          cases openedBy? s .defined with
          | some found => rfl
          | none =>
              cases closedBy? s .alternative with
              | some found => rfl
              | none => cases closedBy? s .final <;> rfl

/-! ## Lines -/

/-- A line is joined to the next one with a carriage return or without. -/
theorem logicalLine_bare (h : Paired s) :
    logicalLine (bare s) = (bare (logicalLine s).1, bare (logicalLine s).2) := by
  fun_induction logicalLine s with
  | case1 => rfl
  | case2 s ih =>
      have hRest := ih h.tail.tail
      simp [bare_cons, logicalLine, hRest]
  | case3 s ih =>
      have hRest := ih h.tail.tail.tail
      simp [bare_cons, logicalLine, hRest]
  | case4 s => simp [bare_cons, logicalLine]
  | case5 c s hFeed hReturn hc ih =>
      have hRest := ih h.tail
      by_cases hHere : c = '\r'
      · -- The line ends behind the carriage return.
        subst hHere
        obtain ⟨next, rfl⟩ := h.exists_of_return
        rw [bare_return, bare_return, hRest]
      · have hEqn : logicalLine (c :: bare s) =
            (c :: (logicalLine (bare s)).1, (logicalLine (bare s)).2) := by
          rw [logicalLine]
          · rw [if_neg hc]
          · rintro next rfl hNext
            cases h.tail with
            | nil => cases hNext
            | @char d s hd _ =>
                rw [bare_cons hd] at hNext
                obtain ⟨rfl, _⟩ := List.cons.inj hNext
                exact hFeed s rfl rfl
            | @lineEnd s _ => exact hReturn s rfl rfl
          · rintro next - hNext
            exact not_mem_bare s (by simp [hNext])
        rw [bare_cons hHere, bare_cons hHere, hEqn, hRest]

theorem nextLine_bare (s : Text) : nextLine (bare s) = bare (nextLine s) := by
  rw [nextLine, nextLine, ← bare_dropWhile_of_pos (by decide)]
  rcases dropWhile_newline s with hRest | ⟨next, hRest⟩
  · rw [hRest]
    rfl
  · rw [hRest]
    rfl

/-- The same directive is read at the front of a text. -/
theorem lineAt?_bare {source front : Text} (hSource : source = front ++ s) (h : Paired s) :
    lineAt? (size (bare front)) (bare s) =
      (lineAt? (size front) s).map fun (line, rest) => (line.bareIn source, bare rest) := by
  unfold lineAt?
  rw [← bare_dropWhile rfl h]
  have hBlanks : s.dropWhile isSpaceOrTab <:+ s := List.dropWhile_suffix _
  cases hMark : s.dropWhile isSpaceOrTab with
  | nil => rfl
  | cons c afterMark =>
      rw [hMark] at hBlanks
      by_cases hc : c = '#'
      · subst hc
        have hAfter := (h.of_suffix hBlanks).tail
        have hGap := hAfter.of_suffix (List.dropWhile_suffix isSpaceOrTab)
        rw [bare_cons (by decide)]
        simp only [← bare_dropWhile (p := isSpaceOrTab) rfl hAfter, keyword?_bare hGap]
        cases hWord : keyword? (afterMark.dropWhile isSpaceOrTab) with
        | none => rfl
        | some found =>
            obtain ⟨directive, afterWord⟩ := found
            have hBehind := hGap.of_suffix (keyword?_suffix hWord)
            have hParam := hBehind.of_suffix (List.dropWhile_suffix isSpaceOrTab)
            have hSuffix : (logicalLine (afterWord.dropWhile isSpaceOrTab)).2 <:+ s :=
              List.IsSuffix.trans ⟨_, logicalLine_append _⟩
                ((List.dropWhile_suffix _).trans ((keyword?_suffix hWord).trans
                  ((List.dropWhile_suffix _).trans ((List.suffix_cons '#' _).trans hBlanks))))
            simp only [Option.map_some, ← bare_dropWhile (p := isSpaceOrTab) rfl hBehind,
              logicalLine_bare hParam, trimEnd_bare]
            generalize (logicalLine (afterWord.dropWhile isSpaceOrTab)).2 = rest at hSuffix
            obtain ⟨taken, rfl⟩ := hSuffix
            have hStart := bareOffset_size front (taken ++ rest)
            have hStop := bareOffset_size (front ++ taken) rest
            have hLength : ∀ a b : Nat, a + b - b = a := by omega
            rw [List.append_assoc, size_append, ← hSource] at hStop
            rw [← hSource] at hStart
            simp only [DirectiveLine.bareIn, Span.bareIn, bare_append, size_append, hLength,
              hStart, hStop]
      · by_cases hHere : c = '\r'
        · subst hHere
          obtain ⟨next, rfl⟩ := (h.of_suffix hBlanks).exists_of_return
          rfl
        · rw [bare_cons hHere]
          simp [hc]

/-- Reading one line leads to the same place. -/
theorem readLine_bare {source front : Text} (hSource : source = front ++ s) (h : Paired s) :
    ∃ taken rest, s = taken ++ rest ∧ (rest = [] ∨ ∃ next, rest = '\n' :: next) ∧
      (readLine (size front) s).2 = (size front + size taken + 1, nextLine rest) ∧
      readLine (size (bare front)) (bare s) =
        ((readLine (size front) s).1.map (DirectiveLine.bareIn source),
          size (bare front) + size (bare taken) + 1, bare (nextLine rest)) := by
  have hBoth := lineAt?_bare hSource h
  cases hRead : lineAt? (size front) s with
  | none =>
      rw [hRead, Option.map_none] at hBoth
      refine ⟨s.takeWhile (· ≠ '\n'), s.dropWhile (· ≠ '\n'),
        List.takeWhile_append_dropWhile.symm, dropWhile_newline s, ?_, ?_⟩
      · simp only [readLine, hRead, nextLine_dropWhile]
      · simp only [readLine, hRead, hBoth, nextLine_bare, nextLine_dropWhile, Option.map_none,
          bare_takeWhile_of_pos (p := fun c => decide (c ≠ '\n')) rfl]
  | some found =>
      obtain ⟨line, rest⟩ := found
      rw [hRead, Option.map_some] at hBoth
      obtain ⟨blanks, text, hText, _, hRest, hSpan⟩ := lineAt?_eq_some hRead
      generalize blanks ++ '#' :: text = taken at hText hSpan
      refine ⟨taken, rest, hText, hRest, ?_, ?_⟩
      · simp only [readLine, hRead, hSpan]
      · have hStop := bareOffset_size (front ++ taken) rest
        rw [List.append_assoc, ← hText, ← hSource, size_append, bare_append, size_append] at hStop
        simp only [readLine, hRead, hBoth, Option.map_some, nextLine_bare, DirectiveLine.bareIn,
          Span.bareIn, hSpan, hStop]

/-- The lines of a text are found behind each other as without carriage returns. -/
theorem linesFrom_bare {source front : Text} (hSource : source = front ++ s) (h : Paired s) :
    linesFrom (size (bare front)) (bare s) =
      (linesFrom (size front) s).map (DirectiveLine.bareIn source) := by
  generalize hLength : s.length = length
  induction length using Nat.strongRecOn generalizing front s with
  | ind length ih =>
      obtain ⟨taken, rest, hSplit, hRest, hRead, hBoth⟩ := readLine_bare hSource h
      rw [linesFrom_eq, linesFrom_eq (size front), hBoth, hRead, List.map_append]
      congr 1
      · cases (readLine (size front) s).1 <;> rfl
      show linesFrom (size (bare front) + size (bare taken) + 1) (bare (nextLine rest)) =
        (linesFrom (size front + size taken + 1) (nextLine rest)).map _
      rcases hRest with rfl | ⟨next, rfl⟩
      · have hNone : ∀ offset, linesFrom offset (nextLine []) = [] := by
          intro offset
          show linesFrom offset [] = []
          rw [linesFrom]
        have hNoneBare : ∀ offset, linesFrom offset (bare (nextLine [])) = [] := hNone
        rw [hNone, hNoneBare]
        rfl
      · have hNext : nextLine ('\n' :: next) = next := by simp [nextLine]
        have hLess : next.length < length := by
          rw [← hLength, hSplit, List.length_append, List.length_cons]
          omega
        have hPaired : Paired next := h.of_suffix ⟨taken ++ ['\n'], by simp [hSplit]⟩
        have hFront : source = front ++ taken ++ ['\n'] ++ next := by simp [hSource, hSplit]
        have hLater := ih next.length hLess hFront hPaired rfl
        simp only [bare_append, size_append] at hLater
        rw [hNext]
        exact hLater

/-- Without carriage returns the same directive lines are read. -/
theorem directiveLines_bare (h : Paired s) :
    directiveLines (bare s) = (directiveLines s).map (DirectiveLine.bareIn s) := by
  have hSource : s = [] ++ s := rfl
  exact linesFrom_bare hSource h

end Conditional

end ValueNames
