import ValueNames.Conditional.Line
import ValueNames.Proofs.Text.Boundary

/-!
# Where directive lines stand

The directive lines of a source are found in order, and each of them ends at
a line feed or at the end of the source. So their spans cut out pieces of the
source, none of which touches the one before it.

## Main results

* `spaced_directiveLines` — the directive lines of a source stand in it, one
  behind the other.
* `exists_lineAt?_of_mem_directiveLines` — each of them is read where a line of the
  source begins.
-/

namespace ValueNames

/--
A line stands in a source if its span cuts out blanks, the mark `#` and the
rest of the line, up to a line feed or the end of the source.
-/
def DirectiveLine.StandsIn (source : Text) (line : DirectiveLine) : Prop :=
  ∃ front blanks text back,
    source = front ++ (blanks ++ '#' :: text) ++ back ∧
      (∀ c ∈ blanks, Text.isSpaceOrTab c = true) ∧ (back = [] ∨ ∃ next, back = '\n' :: next) ∧
      line.span = ⟨Text.size front, Text.size front + Text.size (blanks ++ '#' :: text)⟩

namespace DirectiveLine

variable {source : Text} {line : DirectiveLine}

theorem StandsIn.start_lt_stop (h : line.StandsIn source) : line.span.start < line.span.stop := by
  obtain ⟨front, blanks, text, back, _, _, _, hSpan⟩ := h
  have hMark : 0 < '#'.utf8Size := '#'.utf8Size_pos
  simp only [hSpan, Text.size_append, Text.size_cons]
  omega

theorem StandsIn.isBoundary_start (h : line.StandsIn source) :
    Text.IsBoundary source line.span.start := by
  obtain ⟨front, blanks, text, back, hSource, _, _, hSpan⟩ := h
  exact ⟨front, blanks ++ '#' :: text ++ back, by simp [hSource], by simp [hSpan]⟩

theorem StandsIn.isLineEnd_stop (h : line.StandsIn source) :
    Text.IsLineEnd source line.span.stop := by
  obtain ⟨front, blanks, text, back, hSource, _, hBack, hSpan⟩ := h
  exact ⟨front ++ (blanks ++ '#' :: text), back, hSource, hBack, by simp [hSpan]⟩

end DirectiveLine

namespace Conditional

/-- Lines that stand in a source one behind the other, the first not before `bound`. -/
def Spaced (source : Text) : (bound : Nat) → List DirectiveLine → Prop
  | _, [] => True
  | bound, line :: rest =>
      bound ≤ line.span.start ∧ line.StandsIn source ∧ Spaced source line.span.stop rest

theorem Spaced.mono {source : Text} {low high : Nat} {lines : List DirectiveLine}
    (h : Spaced source high lines) (hLow : low ≤ high) : Spaced source low lines := by
  cases lines with
  | nil => trivial
  | cons line rest => exact ⟨Nat.le_trans hLow h.1, h.2⟩

/-- Every one of the lines begins behind the bound. -/
theorem Spaced.le_start {source : Text} {bound : Nat} {lines : List DirectiveLine}
    (h : Spaced source bound lines) : ∀ line ∈ lines, bound ≤ line.span.start := by
  induction lines generalizing bound with
  | nil => simp
  | cons first rest ih =>
      obtain ⟨hBound, hStands, hRest⟩ := h
      intro line hLine
      rcases List.mem_cons.mp hLine with rfl | hLine
      · exact hBound
      · have hBehind := ih hRest line hLine
        have hOwn := hStands.start_lt_stop
        omega

theorem Spaced.standsIn {source : Text} {bound : Nat} {lines : List DirectiveLine}
    (h : Spaced source bound lines) : ∀ line ∈ lines, line.StandsIn source := by
  induction lines generalizing bound with
  | nil => simp
  | cons first rest ih =>
      obtain ⟨_, hStands, hRest⟩ := h
      intro line hLine
      rcases List.mem_cons.mp hLine with rfl | hLine
      · exact hStands
      · exact ih hRest line hLine

/-- The first of some spaced lines are spaced. -/
theorem Spaced.left {source : Text} {bound : Nat} {early late : List DirectiveLine}
    (h : Spaced source bound (early ++ late)) : Spaced source bound early := by
  induction early generalizing bound with
  | nil => trivial
  | cons line early ih => exact ⟨h.1, h.2.1, ih h.2.2⟩

/-- The last of some spaced lines are spaced, further behind. -/
theorem Spaced.right {source : Text} {bound : Nat} {early late : List DirectiveLine}
    (h : Spaced source bound (early ++ late)) : Spaced source bound late := by
  induction early generalizing bound with
  | nil => exact h
  | cons line early ih =>
      have hOwn := h.2.1.start_lt_stop
      have hBound := h.1
      exact (ih h.2.2).mono (by omega)

/-! ## Lines read off a text -/

/-- A logical line ends at a line feed or at the end of the text. -/
theorem logicalLine_snd (s : Text) :
    (logicalLine s).2 = [] ∨ ∃ next, (logicalLine s).2 = '\n' :: next := by
  fun_induction logicalLine s with
  | case1 => exact .inl rfl
  | case2 s ih => exact ih
  | case3 s ih => exact ih
  | case4 s => exact .inr ⟨s, rfl⟩
  | case5 c s _ _ _ ih => exact ih

/-- What is read as a directive line is blanks, the mark, and text up to the end of a line. -/
theorem lineAt?_eq_some {offset : Nat} {s rest : Text} {line : DirectiveLine}
    (h : lineAt? offset s = some (line, rest)) :
    ∃ blanks text, s = blanks ++ '#' :: text ++ rest ∧
      (∀ c ∈ blanks, Text.isSpaceOrTab c = true) ∧ (rest = [] ∨ ∃ next, rest = '\n' :: next) ∧
      line.span = ⟨offset, offset + Text.size (blanks ++ '#' :: text)⟩ := by
  unfold lineAt? at h
  split at h
  · rename_i afterMark hMark
    obtain ⟨⟨directive, afterWord⟩, hWord, hEq⟩ := Option.map_eq_some_iff.mp h
    simp only [Prod.mk.injEq] at hEq
    obtain ⟨rfl, rfl⟩ := hEq
    generalize hParam : afterWord.dropWhile Text.isSpaceOrTab = param
    have hSuffix : (logicalLine param).2 <:+ afterMark := by
      have hTail : (logicalLine param).2 <:+ param := ⟨_, logicalLine_append param⟩
      exact hTail.trans (hParam ▸ (List.dropWhile_suffix _).trans
        ((keyword?_suffix hWord).trans (List.dropWhile_suffix _)))
    obtain ⟨text, hText⟩ := hSuffix
    have hSplit : s = s.takeWhile Text.isSpaceOrTab ++ '#' :: text ++ (logicalLine param).2 := by
      have hParts := List.takeWhile_append_dropWhile (p := Text.isSpaceOrTab) (l := s)
      rw [hMark, ← hText] at hParts
      simpa using hParts.symm
    refine ⟨s.takeWhile Text.isSpaceOrTab, text, hSplit, ?_, logicalLine_snd param, ?_⟩
    · exact List.all_eq_true.mp List.all_takeWhile
    · have hSize := congrArg Text.size hSplit
      simp only [Text.size_append] at hSize
      simp only [Text.size_append, Span.mk.injEq, true_and]
      omega
  · simp at h

theorem dropWhile_newline (s : Text) :
    s.dropWhile (· ≠ '\n') = [] ∨ ∃ next, s.dropWhile (· ≠ '\n') = '\n' :: next := by
  induction s with
  | nil => exact .inl rfl
  | cons c s ih =>
      by_cases hc : c = '\n'
      · exact .inr ⟨s, by simp [hc]⟩
      · simpa [hc] using ih

theorem nextLine_dropWhile (s : Text) : nextLine (s.dropWhile (· ≠ '\n')) = nextLine s := by
  unfold nextLine
  rcases dropWhile_newline s with hRest | ⟨next, hRest⟩
  · rw [hRest, List.dropWhile_nil]
  · rw [hRest, List.dropWhile_cons_of_neg (by simp)]

/-! ## All lines of a text -/

/-- The lines behind the end of a line are spaced if those of the text behind it are. -/
theorem spaced_nextLine {source front taken rest : Text} (hSource : source = front ++ taken ++ rest)
    (hRest : rest = [] ∨ ∃ next, rest = '\n' :: next)
    (ih : ∀ front', source = front' ++ nextLine rest →
      Text.size front' = Text.size front + Text.size taken + 1 →
      Spaced source (Text.size front + Text.size taken + 1)
        (linesFrom (Text.size front + Text.size taken + 1) (nextLine rest))) :
    Spaced source (Text.size front + Text.size taken)
      (linesFrom (Text.size front + Text.size taken + 1) (nextLine rest)) := by
  rcases hRest with rfl | ⟨next, rfl⟩
  · have hNone : nextLine [] = [] := rfl
    rw [hNone, linesFrom]
    trivial
  · have hNext : nextLine ('\n' :: next) = next := by simp [nextLine]
    refine Spaced.mono (ih (front ++ taken ++ ['\n']) ?_ ?_) (Nat.le_succ _)
    · simp [hSource, hNext]
    · simp only [Text.size_append, Text.size_cons, Text.size_nil]
      rfl

theorem spaced_linesFrom {source s : Text} (front : Text) (h : source = front ++ s) :
    Spaced source (Text.size front) (linesFrom (Text.size front) s) := by
  generalize hOffset : Text.size front = offset
  fun_induction linesFrom offset s generalizing front with
  | case1 offset => trivial
  | case2 offset c s read =>
      rename_i ih
      subst hOffset
      cases hLine : lineAt? (Text.size front) (c :: s) with
      | none =>
          have hRead : read = (none, Text.size front +
              Text.size ((c :: s).takeWhile (· ≠ '\n')) + 1, nextLine (c :: s)) := by
            simp only [read, readLine, hLine]
          have hSplit : source = front ++ (c :: s).takeWhile (· ≠ '\n') ++
              (c :: s).dropWhile (· ≠ '\n') := by
            rw [List.append_assoc, List.takeWhile_append_dropWhile, h]
          simp only [hRead, ← nextLine_dropWhile (c :: s)] at ih ⊢
          exact (spaced_nextLine hSplit (dropWhile_newline _) ih).mono (Nat.le_add_right _ _)
      | some found =>
          obtain ⟨line, rest⟩ := found
          obtain ⟨blanks, text, hText, hBlanks, hRest, hSpan⟩ := lineAt?_eq_some hLine
          have hRead : read = (some line, line.span.stop + 1, nextLine rest) := by
            simp only [read, readLine, hLine]
          have hSplit : source = front ++ (blanks ++ '#' :: text) ++ rest := by
            rw [h, hText, List.append_assoc front]
          simp only [hRead, hSpan] at ih ⊢
          refine ⟨by simp [hSpan], ⟨front, blanks, text, rest, hSplit, hBlanks, hRest, hSpan⟩, ?_⟩
          rw [hSpan]
          exact spaced_nextLine hSplit hRest ih

/-- The directive lines of a source stand in it one behind the other. -/
theorem spaced_directiveLines (source : Text) : Spaced source 0 (directiveLines source) :=
  spaced_linesFrom [] rfl

/-! ## Where lines begin -/

/-- The next line begins behind the line feed that ends a line. -/
theorem exists_front_nextLine {source front taken rest : Text}
    (hSource : source = front ++ taken ++ rest) (hRest : rest = [] ∨ ∃ next, rest = '\n' :: next)
    (hNext : nextLine rest ≠ []) :
    ∃ line, source = line ++ ['\n'] ++ nextLine rest ∧
      Text.size (line ++ ['\n']) = Text.size front + Text.size taken + 1 := by
  rcases hRest with rfl | ⟨next, rfl⟩
  · exact absurd rfl hNext
  · refine ⟨front ++ taken, ?_, ?_⟩
    · simp [hSource, nextLine]
    · simp only [Text.size_append, Text.size_cons, Text.size_nil]
      rfl

/-- One line is read up to the line feed that ends it, and a directive is read at its start. -/
theorem exists_taken_readLine (offset : Nat) (s : Text) :
    ∃ taken rest, s = taken ++ rest ∧ (rest = [] ∨ ∃ next, rest = '\n' :: next) ∧
      (readLine offset s).2 = (offset + Text.size taken + 1, nextLine rest) ∧
      ∀ line ∈ (readLine offset s).1, ∃ rest, lineAt? offset s = some (line, rest) := by
  cases hRead : lineAt? offset s with
  | none =>
      refine ⟨s.takeWhile (· ≠ '\n'), s.dropWhile (· ≠ '\n'),
        List.takeWhile_append_dropWhile.symm, dropWhile_newline s, ?_, ?_⟩
      · simp only [readLine, hRead, nextLine_dropWhile]
      · simp [readLine, hRead]
  | some found =>
      obtain ⟨own, rest⟩ := found
      obtain ⟨blanks, text, hText, _, hRest, hSpan⟩ := lineAt?_eq_some hRead
      refine ⟨blanks ++ '#' :: text, rest, hText, hRest, ?_, ?_⟩
      · simp only [readLine, hRead, hSpan]
      · simp [readLine, hRead]

theorem exists_lineAt?_of_mem_linesFrom {source s : Text} (front : Text) (h : source = front ++ s)
    (hFront : front = [] ∨ ∃ line, front = line ++ ['\n']) {line : DirectiveLine}
    (hLine : line ∈ linesFrom (Text.size front) s) :
    ∃ ahead text rest, source = ahead ++ text ∧ (ahead = [] ∨ ∃ line, ahead = line ++ ['\n']) ∧
      lineAt? (Text.size ahead) text = some (line, rest) := by
  generalize hOffset : Text.size front = offset at hLine
  fun_induction linesFrom offset s generalizing front with
  | case1 offset => simp at hLine
  | case2 offset c s read =>
      rename_i ih
      obtain ⟨taken, rest, hSplit, hRest, hBehind, hOwn⟩ := exists_taken_readLine offset (c :: s)
      rcases List.mem_append.mp hLine with hHere | hLater
      · obtain ⟨back, hRead⟩ := hOwn line (by simpa using hHere)
        rw [← hOffset] at hRead
        exact ⟨front, c :: s, back, h, hFront, hRead⟩
      · have hSource : source = front ++ taken ++ rest := by
          rw [h, hSplit, List.append_assoc]
        simp only [read, hBehind] at ih hLater
        have hSome : nextLine rest ≠ [] := by
          intro hNone
          rw [hNone, linesFrom] at hLater
          cases hLater
        obtain ⟨ahead, hAhead, hSize⟩ := exists_front_nextLine hSource hRest hSome
        rw [hOffset] at hSize
        exact ih _ hAhead (.inr ⟨ahead, rfl⟩) hSize hLater

/-- The directive lines of a source are read where lines of it begin. -/
theorem exists_lineAt?_of_mem_directiveLines {source : Text} {line : DirectiveLine}
    (h : line ∈ directiveLines source) :
    ∃ ahead text rest, source = ahead ++ text ∧ (ahead = [] ∨ ∃ line, ahead = line ++ ['\n']) ∧
      lineAt? (Text.size ahead) text = some (line, rest) :=
  exists_lineAt?_of_mem_linesFrom [] rfl (.inl rfl) h

theorem isLineStart_of_mem_directiveLines {source : Text} {line : DirectiveLine}
    (h : line ∈ directiveLines source) : Text.IsLineStart source line.span.start := by
  obtain ⟨ahead, text, rest, hSource, hAhead, hRead⟩ := exists_lineAt?_of_mem_directiveLines h
  obtain ⟨_, _, _, _, _, hSpan⟩ := lineAt?_eq_some hRead
  exact ⟨ahead, text, hSource, hAhead, by rw [hSpan]⟩

end Conditional

end ValueNames
