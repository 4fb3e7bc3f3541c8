import ValueNames.Proofs.Conditional.Placement

/-!
# Cutting a source behind a line

A line feed ends a directive line unless a backslash before it, or before the carriage
return in front of it, joins the next line. Where it does end the line, the source can
be cut there: the directive lines are those of the two pieces, and those of the second
piece stand behind the first as they stand in the second piece on its own.

## Main results

* `linesFrom_append_newline` — the directive lines of two pieces of a source.
* `linesFrom_add` — the directive lines of a text that starts further behind.
* `directiveLines_of_stop` — a source can be cut where a directive line ends.
* `directiveLines_shared` — what follows there does not change the lines before it.
-/

namespace ValueNames

/-- A directive line that stands `base` bytes further behind. -/
def DirectiveLine.shift (base : Nat) (line : DirectiveLine) : DirectiveLine :=
  { line with span := line.span.shift base }

namespace Conditional

/-- Whether a line feed behind the text joins the next line to it. -/
def Continues (s : Text) : Prop := ['\\'] <:+ s ∨ ['\\', '\r'] <:+ s

instance (s : Text) : Decidable (Continues s) := inferInstanceAs (Decidable (_ ∨ _))

theorem Continues.of_suffix {s t : Text} (h : Continues t) (hSuffix : t <:+ s) : Continues s :=
  h.imp (·.trans hSuffix) (·.trans hSuffix)

theorem continues_cons {c : Char} {s : Text} :
    Continues (c :: s) ↔ Continues s ∨ c = '\\' ∧ (s = [] ∨ s = ['\r']) := by
  simp only [Continues, List.suffix_cons_iff, List.cons.injEq, @eq_comm _ '\\' c,
    @eq_comm _ [] s, @eq_comm _ ['\r'] s]
  constructor
  · rintro ((⟨rfl, rfl⟩ | h) | (⟨rfl, rfl⟩ | h))
    · exact .inr ⟨rfl, .inl rfl⟩
    · exact .inl (.inl h)
    · exact .inr ⟨rfl, .inr rfl⟩
    · exact .inl (.inr h)
  · rintro ((h | h) | ⟨rfl, rfl | rfl⟩)
    · exact .inl (.inr h)
    · exact .inr (.inr h)
    · exact .inl (.inl ⟨rfl, rfl⟩)
    · exact .inr (.inl ⟨rfl, rfl⟩)

/-- What joins a line stands behind the last character that cannot. -/
theorem Continues.of_append {front s : Text} {c : Char} (hc : c ≠ '\\' ∧ c ≠ '\r')
    (h : Continues (front ++ c :: s)) : Continues s := by
  induction front with
  | nil =>
      rcases continues_cons.mp h with hs | ⟨hFirst, _⟩
      · exact hs
      · exact absurd hFirst hc.1
  | cons d front ih =>
      rcases continues_cons.mp h with hs | ⟨_, hNone | hReturn⟩
      · exact ih hs
      · simp at hNone
      · cases front with
        | nil =>
            obtain ⟨hFirst, _⟩ := List.cons.inj hReturn
            exact absurd hFirst hc.2
        | cons e front => simp at hReturn

theorem Continues.of_plain {plain s : Text} (hPlain : ∀ c ∈ plain, c ≠ '\\' ∧ c ≠ '\r')
    (h : Continues (plain ++ s)) : Continues s := by
  induction plain with
  | nil => exact h
  | cons c plain ih =>
      have hFirst : Continues ([] ++ c :: (plain ++ s)) := h
      exact ih (fun d hd => hPlain d (by simp [hd])) (hFirst.of_append (hPlain c (by simp)))

/-! ## The parts of a line before a line feed -/

section Newline

variable (v : Text)

theorem dropWhile_append_newline (p : Char → Bool) (hNewline : p '\n' = false) (s : Text) :
    (s ++ '\n' :: v).dropWhile p = s.dropWhile p ++ '\n' :: v := by
  induction s with
  | nil => simp [hNewline]
  | cons c s ih =>
      by_cases hc : p c = true
      · simp [hc, ih]
      · simp [hc]

theorem takeWhile_append_newline (p : Char → Bool) (hNewline : p '\n' = false) (s : Text) :
    (s ++ '\n' :: v).takeWhile p = s.takeWhile p := by
  induction s with
  | nil => simp [hNewline]
  | cons c s ih =>
      by_cases hc : p c = true
      · simp [hc, ih]
      · simp [hc]

theorem stripLead?_append_newline {lead : Text} (hLead : '\n' ∉ lead) (s : Text) :
    Text.stripLead? lead (s ++ '\n' :: v) = (Text.stripLead? lead s).map (· ++ '\n' :: v) := by
  induction lead generalizing s with
  | nil => rfl
  | cons a lead ih =>
      simp only [List.mem_cons, not_or] at hLead
      cases s with
      | nil =>
          have hFirst : a ≠ '\n' := fun h => hLead.1 h.symm
          simp [Text.stripLead?, hFirst]
      | cons c s =>
          simp only [List.cons_append, Text.stripLead?]
          split
          · exact ih hLead.2 s
          · rfl

theorem openedBy?_append_newline (s : Text) (opener : Opener) :
    openedBy? (s ++ '\n' :: v) opener =
      (openedBy? s opener).map fun (directive, rest) => (directive, rest ++ '\n' :: v) := by
  have hWord : '\n' ∉ opener.word := by cases opener <;> decide
  unfold openedBy?
  rw [stripLead?_append_newline v hWord]
  match Text.stripLead? opener.word s with
  | none => rfl
  | some [] => rfl
  | some (c :: rest) =>
      simp only [Option.map_some, List.cons_append]
      split
      · rfl
      · rfl

theorem closedBy?_append_newline (s : Text) (closer : Closer) :
    closedBy? (s ++ '\n' :: v) closer =
      (closedBy? s closer).map fun (directive, rest) => (directive, rest ++ '\n' :: v) := by
  have hWord : '\n' ∉ closer.word := by cases closer <;> decide
  unfold closedBy?
  rw [stripLead?_append_newline v hWord, Option.map_map, Option.map_map]
  rfl

/-- No keyword reaches over the end of a line. -/
theorem keyword?_append_newline (s : Text) :
    keyword? (s ++ '\n' :: v) =
      (keyword? s).map fun (directive, rest) => (directive, rest ++ '\n' :: v) := by
  simp only [keyword?, List.findSome?_cons, List.findSome?_nil, openedBy?_append_newline,
    closedBy?_append_newline]
  cases openedBy? s .expression with
  | some found => rfl
  | none =>
      cases openedBy? s .undefined with
      | some found => rfl
      | none =>
          cases openedBy? s .defined with
          | some found => rfl
          | none =>
              cases closedBy? s .alternative with
              | some found => rfl
              | none => cases closedBy? s .final <;> rfl

/-- A logical line ends at the first line feed that joins nothing. -/
theorem logicalLine_append_newline {s : Text} (h : ¬ Continues s) :
    logicalLine (s ++ '\n' :: v) = ((logicalLine s).1, (logicalLine s).2 ++ '\n' :: v) := by
  fun_induction logicalLine s with
  | case1 => simp [logicalLine]
  | case2 s ih =>
      have hRest : ¬ Continues s := fun hs => h (hs.of_suffix ⟨['\\', '\n'], rfl⟩)
      simp [logicalLine, ih hRest]
  | case3 s ih =>
      have hRest : ¬ Continues s := fun hs => h (hs.of_suffix ⟨['\\', '\r', '\n'], rfl⟩)
      simp [logicalLine, ih hRest]
  | case4 s => simp [logicalLine]
  | case5 c s hFeed hReturn hc ih =>
      have hRest : ¬ Continues s := fun hs => h (hs.of_suffix ⟨[c], rfl⟩)
      -- The line feed is joined by none of the characters before it.
      have hEqn : logicalLine (c :: (s ++ '\n' :: v)) =
          (c :: (logicalLine (s ++ '\n' :: v)).1, (logicalLine (s ++ '\n' :: v)).2) := by
        rw [logicalLine]
        · rw [if_neg hc]
        · rintro next rfl hNext
          cases s with
          | nil => exact h (.inl (List.suffix_refl _))
          | cons d s =>
              obtain ⟨rfl, _⟩ := List.cons.inj hNext
              exact hFeed s rfl rfl
        · rintro next rfl hNext
          match s with
          | [] => simp at hNext
          | [d] =>
              obtain ⟨rfl, _⟩ : d = '\r' ∧ _ := by simpa using hNext
              exact h (.inr (List.suffix_refl _))
          | d :: e :: s =>
              obtain ⟨rfl, rfl, _⟩ : d = '\r' ∧ e = '\n' ∧ _ := by simpa using hNext
              exact hReturn s rfl rfl
      rw [List.cons_append, hEqn, ih hRest]

/-- A directive line that ends before a line feed does not depend on what follows. -/
theorem lineAt?_append_newline (offset : Nat) {s : Text} (h : ¬ Continues s) :
    lineAt? offset (s ++ '\n' :: v) =
      (lineAt? offset s).map fun (line, rest) => (line, rest ++ '\n' :: v) := by
  unfold lineAt?
  rw [dropWhile_append_newline v _ rfl]
  have hBlanks : s.dropWhile Text.isSpaceOrTab <:+ s := List.dropWhile_suffix _
  cases hMark : s.dropWhile Text.isSpaceOrTab with
  | nil => rfl
  | cons c afterMark =>
      rw [hMark] at hBlanks
      by_cases hc : c = '#'
      · subst hc
        simp only [List.cons_append]
        rw [dropWhile_append_newline v _ rfl, keyword?_append_newline]
        cases hWord : keyword? (afterMark.dropWhile Text.isSpaceOrTab) with
        | none => rfl
        | some found =>
            obtain ⟨directive, afterWord⟩ := found
            have hParam : ¬ Continues (afterWord.dropWhile Text.isSpaceOrTab) := by
              refine fun hs => h (hs.of_suffix ((List.dropWhile_suffix _).trans ?_))
              exact (keyword?_suffix hWord).trans ((List.dropWhile_suffix _).trans
                ((List.suffix_cons '#' afterMark).trans hBlanks))
            simp only [Option.map_some, dropWhile_append_newline v Text.isSpaceOrTab rfl,
              logicalLine_append_newline v hParam, Text.size_append]
            congr 4
            omega
      · simp [hc]

/-- Reading a line of a text goes as far as in the text with a line feed and more behind it. -/
theorem readLine_append_newline (offset : Nat) {s : Text} (h : ¬ Continues s) :
    ∃ taken rest, s = taken ++ rest ∧ (rest = [] ∨ ∃ next, rest = '\n' :: next) ∧
      (readLine offset s).2 = (offset + Text.size taken + 1, nextLine rest) ∧
      readLine offset (s ++ '\n' :: v) =
        ((readLine offset s).1, offset + Text.size taken + 1, nextLine (rest ++ '\n' :: v)) := by
  have hBoth := lineAt?_append_newline v offset h
  cases hRead : lineAt? offset s with
  | none =>
      rw [hRead, Option.map_none] at hBoth
      have hSplit : s = s.takeWhile (· ≠ '\n') ++ s.dropWhile (· ≠ '\n') :=
        List.takeWhile_append_dropWhile.symm
      refine ⟨s.takeWhile (· ≠ '\n'), s.dropWhile (· ≠ '\n'), hSplit, dropWhile_newline s, ?_, ?_⟩
      · simp only [readLine, hRead, nextLine_dropWhile]
      · have hTaken := takeWhile_append_newline v (fun c => decide (c ≠ '\n')) (by decide) s
        have hDropped := dropWhile_append_newline v (fun c => decide (c ≠ '\n')) (by decide) s
        simp only [readLine, hRead, hBoth, hTaken]
        rw [← hDropped, nextLine_dropWhile]
  | some found =>
      obtain ⟨line, rest⟩ := found
      rw [hRead, Option.map_some] at hBoth
      obtain ⟨blanks, text, hText, _, hRest, hSpan⟩ := lineAt?_eq_some hRead
      refine ⟨blanks ++ '#' :: text, rest, hText, hRest, ?_, ?_⟩
      · simp only [readLine, hRead, hSpan]
      · simp only [readLine, hRead, hBoth, hSpan]

end Newline

/-! ## All lines -/

/-- The directive lines of a text are read one by one. -/
theorem linesFrom_eq (offset : Nat) (s : Text) :
    linesFrom offset s =
      (readLine offset s).1.toList ++ linesFrom (readLine offset s).2.1 (readLine offset s).2.2 := by
  cases s with
  | nil =>
      have hNone : readLine offset [] = (none, offset + 1, []) := rfl
      rw [hNone, linesFrom, linesFrom]
      rfl
  | cons c s => rw [linesFrom]

/-- Where a line feed joins nothing, the directive lines are those before and those behind it. -/
theorem linesFrom_append_newline (offset : Nat) {s : Text} (h : ¬ Continues s) (v : Text) :
    linesFrom offset (s ++ '\n' :: v) =
      linesFrom offset s ++ linesFrom (offset + Text.size s + 1) v := by
  generalize hLength : s.length = length
  induction length using Nat.strongRecOn generalizing offset s with
  | ind length ih =>
      obtain ⟨taken, rest, hSplit, hRest, hRead, hBoth⟩ := readLine_append_newline v offset h
      have hSize : Text.size s = Text.size taken + Text.size rest := by
        rw [hSplit, Text.size_append]
      rw [linesFrom_eq offset (s ++ '\n' :: v), hBoth, linesFrom_eq offset s, hRead,
        List.append_assoc]
      congr 1
      show linesFrom (offset + Text.size taken + 1) (nextLine (rest ++ '\n' :: v)) =
        linesFrom (offset + Text.size taken + 1) (nextLine rest) ++
          linesFrom (offset + Text.size s + 1) v
      rcases hRest with rfl | ⟨next, rfl⟩
      · have hNone : linesFrom (offset + Text.size taken + 1) (nextLine []) = [] := by
          show linesFrom _ [] = []
          rw [linesFrom]
        have hBehind : nextLine ([] ++ '\n' :: v) = v := by simp [nextLine]
        have hEnd : Text.size s = Text.size taken := by simp [hSplit]
        rw [hNone, hBehind, List.nil_append, hEnd]
      · have hNext : nextLine ('\n' :: next) = next := by simp [nextLine]
        have hBehind : nextLine ('\n' :: next ++ '\n' :: v) = next ++ '\n' :: v := by
          simp [nextLine]
        have hLess : next.length < length := by
          rw [← hLength, hSplit, List.length_append, List.length_cons]
          omega
        have hLast : ¬ Continues next :=
          fun hs => h (hs.of_suffix ⟨taken ++ ['\n'], by simp [hSplit]⟩)
        have hFeed : Text.size ('\n' :: next) = 1 + Text.size next := Text.size_cons _ _
        have hStart : offset + Text.size taken + 1 + Text.size next + 1 =
            offset + Text.size s + 1 := by omega
        rw [hNext, hBehind, ih next.length hLess _ hLast rfl, hStart]

theorem lineAt?_add (offset base : Nat) (s : Text) :
    lineAt? (offset + base) s =
      (lineAt? offset s).map fun (line, rest) => (line.shift base, rest) := by
  unfold lineAt?
  split
  · simp only [Option.map_map]
    congr 1
    funext found
    simp only [Function.comp, DirectiveLine.shift, Span.shift]
    congr 3
    omega
  · rfl

theorem readLine_add (offset base : Nat) (s : Text) :
    readLine (offset + base) s =
      ((readLine offset s).1.map (DirectiveLine.shift base), (readLine offset s).2.1 + base,
        (readLine offset s).2.2) := by
  unfold readLine
  rw [lineAt?_add]
  cases lineAt? offset s with
  | none =>
      simp only [Option.map_none, Prod.mk.injEq, and_true, true_and]
      omega
  | some found =>
      simp only [Option.map_some, DirectiveLine.shift, Span.shift, Prod.mk.injEq, and_true,
        true_and]
      omega

/-- The directive lines of a text that starts further behind stand further behind. -/
theorem linesFrom_add (offset base : Nat) (s : Text) :
    linesFrom (offset + base) s = (linesFrom offset s).map (DirectiveLine.shift base) := by
  fun_induction linesFrom offset s with
  | case1 offset => rw [linesFrom, List.map_nil]
  | case2 offset c s read ih =>
      rw [linesFrom, readLine_add]
      simp only [List.map_append, ← ih]
      congr 1
      show ((readLine offset (c :: s)).1.map (DirectiveLine.shift base)).toList =
        (readLine offset (c :: s)).1.toList.map (DirectiveLine.shift base)
      cases (readLine offset (c :: s)).1 <;> rfl

/-- Behind some text, the directive lines of a text are its own, further behind. -/
theorem linesFrom_eq_map (base : Nat) (s : Text) :
    linesFrom base s = (directiveLines s).map (DirectiveLine.shift base) := by
  rw [directiveLines, ← linesFrom_add, Nat.zero_add]

/-! ## A directive line that ends before a line feed -/

/-- Blanks at the start of a text join no lines. -/
theorem exists_blanks (s : Text) :
    ∃ blanks, s = blanks ++ s.dropWhile Text.isSpaceOrTab ∧
      ∀ c ∈ blanks, c ≠ '\\' ∧ c ≠ '\r' := by
  refine ⟨s.takeWhile Text.isSpaceOrTab, List.takeWhile_append_dropWhile.symm, ?_⟩
  intro c hc
  have hBlank : Text.isSpaceOrTab c = true := List.all_eq_true.mp List.all_takeWhile c hc
  constructor
  · rintro rfl
    cases hBlank
  · rintro rfl
    cases hBlank

/-- Whether a word holds no character that joins lines can be tried out. -/
theorem plain_of_all {word : Text} (h : (word.all fun c => c != '\\' && c != '\r') = true) :
    ∀ c ∈ word, c ≠ '\\' ∧ c ≠ '\r' := by
  intro c hc
  simpa using List.all_eq_true.mp h c hc

/-- What is read up to the text behind a keyword holds no character that joins lines. -/
theorem exists_word_of_keyword? {s rest : Text} {directive : Directive}
    (h : keyword? s = some (directive, rest)) :
    ∃ word, s = word ++ rest ∧ ∀ c ∈ word, c ≠ '\\' ∧ c ≠ '\r' := by
  have hOpened : ∀ opener, openedBy? s opener = some (directive, rest) →
      ∃ word, s = word ++ rest ∧ ∀ c ∈ word, c ≠ '\\' ∧ c ≠ '\r' := by
    intro opener hOpen
    unfold openedBy? at hOpen
    split at hOpen
    · rename_i c tail hLead
      split at hOpen
      · rename_i hBlank
        obtain ⟨_, rfl⟩ : _ ∧ tail = rest := by simpa using hOpen
        refine ⟨opener.word ++ [c], by simp [Text.stripLead?_eq_some_iff.mp hLead], ?_⟩
        intro d hd
        rcases List.mem_append.mp hd with hWord | hLast
        · exact plain_of_all (by cases opener <;> decide) d hWord
        · obtain rfl := List.mem_singleton.mp hLast
          constructor
          · rintro rfl
            cases hBlank
          · rintro rfl
            cases hBlank
      · simp at hOpen
    · simp at hOpen
  have hClosed : ∀ closer, closedBy? s closer = some (directive, rest) →
      ∃ word, s = word ++ rest ∧ ∀ c ∈ word, c ≠ '\\' ∧ c ≠ '\r' := by
    intro closer hClose
    obtain ⟨tail, hLead, hEq⟩ := Option.map_eq_some_iff.mp hClose
    obtain ⟨_, rfl⟩ := Prod.mk.inj hEq
    refine ⟨closer.word, Text.stripLead?_eq_some_iff.mp hLead, plain_of_all ?_⟩
    cases closer <;> decide
  rcases Option.or_eq_some_iff.mp h with hOpen | ⟨_, hClose⟩
  · obtain ⟨opener, _, hOpen⟩ := List.exists_of_findSome?_eq_some hOpen
    exact hOpened opener hOpen
  · obtain ⟨closer, _, hClose⟩ := List.exists_of_findSome?_eq_some hClose
    exact hClosed closer hClose

/-- A logical line that ends before a line feed has nothing at its end that joins lines. -/
theorem not_continues_logicalLine {s next : Text} (h : (logicalLine s).2 = '\n' :: next) :
    ¬ Continues (logicalLine s).1 := by
  fun_induction logicalLine s with
  | case1 => cases h
  | case2 s ih => simp [continues_cons, ih h]
  | case3 s ih => simp [continues_cons, ih h]
  | case4 s => simp [Continues]
  | case5 c s hFeed hReturn hc ih =>
      have hSplit := logicalLine_append s
      rw [continues_cons]
      rintro (hs | ⟨rfl, hNone | hOne⟩)
      · exact ih h hs
      · rw [hNone, h, List.nil_append] at hSplit
        exact hFeed next rfl hSplit.symm
      · rw [hOne, h] at hSplit
        exact hReturn next rfl hSplit.symm

/-- Where a line feed ends a directive line, nothing before it joins lines. -/
theorem not_continues_of_lineAt? {offset : Nat} {s next : Text} {line : DirectiveLine}
    (h : lineAt? offset s = some (line, '\n' :: next)) (front : Text) :
    ∃ text, s = text ++ '\n' :: next ∧ line.span.stop = offset + Text.size text ∧
      ¬ Continues (front ++ text) := by
  unfold lineAt? at h
  split at h
  · rename_i afterMark hMark
    obtain ⟨⟨directive, afterWord⟩, hWord, hEq⟩ := Option.map_eq_some_iff.mp h
    obtain ⟨rfl, hRest⟩ := Prod.mk.inj hEq
    have hRest : (logicalLine (afterWord.dropWhile Text.isSpaceOrTab)).2 = '\n' :: next := hRest
    obtain ⟨word, hSplit, hPlain⟩ := exists_word_of_keyword? hWord
    obtain ⟨lead, hLead, _⟩ := exists_blanks s
    obtain ⟨gap, hGap, hGapPlain⟩ := exists_blanks afterMark
    obtain ⟨space, hSpace, hSpacePlain⟩ := exists_blanks afterWord
    have hLogical := logicalLine_append (afterWord.dropWhile Text.isSpaceOrTab)
    have hLast := not_continues_logicalLine hRest
    rw [hRest] at hLogical
    generalize (logicalLine (afterWord.dropWhile Text.isSpaceOrTab)).1 = param at hLogical hLast
    have hText : s = lead ++ '#' :: (gap ++ (word ++ (space ++ param))) ++ '\n' :: next := by
      have hWhole : s = lead ++ '#' :: (gap ++ (word ++ (space ++ (param ++ '\n' :: next)))) := by
        rw [hLogical, ← hSpace, ← hSplit, ← hGap, ← hMark]
        exact hLead
      simpa using hWhole
    refine ⟨_, hText, ?_, ?_⟩
    · have hSize := congrArg Text.size hText
      rw [Text.size_append] at hSize
      show offset + (Text.size s - Text.size (logicalLine _).2) = _
      rw [hRest]
      omega
    · intro hs
      rw [← List.append_assoc] at hs
      exact hLast ((((hs.of_append (by decide)).of_plain hGapPlain).of_plain hPlain).of_plain
        hSpacePlain)
  · simp at h

/-- A source in which a directive line ends before a line feed joins nothing there. -/
theorem not_continues_of_stop {front back : Text} {line : DirectiveLine}
    (hLine : line ∈ directiveLines (front ++ '\n' :: back))
    (hStop : line.span.stop = Text.size front) : ¬ Continues front := by
  obtain ⟨ahead, text, rest, hSource, _, hRead⟩ := exists_lineAt?_of_mem_directiveLines hLine
  obtain ⟨blanks, mark, hText, _, hRest, hSpan⟩ := lineAt?_eq_some hRead
  have hCut : ahead ++ (blanks ++ '#' :: mark) ++ rest = front ++ '\n' :: back := by
    rw [hSource, hText]
    simp
  have hSize : Text.size (ahead ++ (blanks ++ '#' :: mark)) = Text.size front := by
    rw [← hStop, hSpan, Text.size_append]
  obtain ⟨hFront, rfl⟩ := Text.append_inj_of_size hCut hSize
  obtain ⟨taken, hTaken, _, hPlain⟩ := not_continues_of_lineAt? hRead ahead
  have hSame : blanks ++ '#' :: mark = taken :=
    List.append_cancel_right (hText.symm.trans hTaken)
  rwa [← hSame, hFront] at hPlain

/-- A directive line on the last line of a source ends there, unless the line feed is joined. -/
theorem stop_of_lastLine {ahead own : Text} {line : DirectiveLine}
    (hLine : line ∈ directiveLines (ahead ++ own ++ ['\n']))
    (hStart : line.span.start = Text.size ahead) (hOwn : '\n' ∉ own) (hPlain : ¬ Continues own) :
    line.span.stop = Text.size (ahead ++ own) := by
  obtain ⟨front, text, rest, hSource, _, hRead⟩ := exists_lineAt?_of_mem_directiveLines hLine
  obtain ⟨blanks, mark, hText, _, hRest, hSpan⟩ := lineAt?_eq_some hRead
  have hSize : Text.size ahead = Text.size front := by rw [← hStart, hSpan]
  have hSame : ahead ++ (own ++ ['\n']) = front ++ text := by rw [← hSource, List.append_assoc]
  obtain ⟨rfl, rfl⟩ := Text.append_inj_of_size hSame hSize
  -- What is left behind the line ends with the line feed, which is the only one.
  rw [lineAt?_append_newline [] _ hPlain] at hRead
  obtain ⟨⟨own', rest'⟩, _, hLast⟩ := Option.map_eq_some_iff.mp hRead
  obtain ⟨_, rfl⟩ := Prod.mk.inj hLast
  have hWhole : own = blanks ++ '#' :: mark ++ rest' :=
    List.append_cancel_right (hText.trans (List.append_assoc _ _ _).symm)
  have hNone : rest' = [] := by
    cases rest' with
    | nil => rfl
    | cons c rest' =>
        rcases hRest with hNil | ⟨next, hNext⟩
        · simp at hNil
        · obtain ⟨rfl, _⟩ := List.cons.inj hNext
          exact absurd (by simp [hWhole]) hOwn
  rw [hNone, List.append_nil] at hWhole
  rw [hSpan, hWhole, Text.size_append ahead]

/--
A source can be cut behind a directive line that ends before a line feed. The lines up to
this one are those of the text in front of the line feed, and the lines behind it are
those of the text behind the line feed, further behind.
-/
theorem directiveLines_of_stop {front back : Text} {early late : List DirectiveLine}
    {line : DirectiveLine}
    (h : directiveLines (front ++ '\n' :: back) = early ++ line :: late)
    (hStop : line.span.stop = Text.size front) :
    directiveLines front = early ++ [line] ∧
      late = (directiveLines back).map (DirectiveLine.shift (Text.size front + 1)) := by
  have hPlain : ¬ Continues front := not_continues_of_stop (by rw [h]; simp) hStop
  have hCut : early ++ line :: late =
      directiveLines front ++ linesFrom (Text.size front + 1) back := by
    have hBoth := linesFrom_append_newline 0 hPlain back
    rw [Nat.zero_add] at hBoth
    rw [← h, directiveLines, hBoth]
    rfl
  have hSpaced := spaced_directiveLines (front ++ '\n' :: back)
  have hFeed : Text.size (front ++ ['\n']) = Text.size front + 1 := Text.size_append _ _
  -- The line ends at the line feed, so that it is the last one in front of it.
  have hBehind : ∀ other ∈ linesFrom (Text.size front + 1) back,
      line.span.stop < other.span.start := by
    intro other hOther
    have hSplit : front ++ '\n' :: back = front ++ ['\n'] ++ back := by simp
    have hPlace := spaced_linesFrom (front ++ ['\n']) hSplit
    rw [hFeed] at hPlace
    have hStart := hPlace.le_start other hOther
    omega
  have hLast : ∀ other ∈ late, line.span.stop ≤ other.span.start := by
    have hLate := hSpaced
    rw [h] at hLate
    exact hLate.right.2.2.le_start
  have hOwn : line.span.start < line.span.stop :=
    (hSpaced.standsIn line (by rw [h]; simp)).start_lt_stop
  have hBefore : ∀ other ∈ directiveLines front, other.span.start < Text.size front := by
    intro other hOther
    have hStands := (spaced_directiveLines front).standsIn other hOther
    have hLess := hStands.start_lt_stop
    have hSize := hStands.isLineEnd_stop.isBoundary.le_size
    omega
  rcases List.append_eq_append_iff.mp hCut with ⟨gap, hFront, hBack⟩ | ⟨gap, hEarly, hBack⟩
  · cases gap with
    | nil =>
        have hMem : line ∈ linesFrom (Text.size front + 1) back := by
          rw [← List.nil_append (linesFrom _ _), ← hBack]
          simp
        have hLess := hBehind line hMem
        omega
    | cons first gap =>
        obtain ⟨rfl, hLate⟩ := List.cons.inj hBack
        cases gap with
        | nil => exact ⟨hFront, by rw [← linesFrom_eq_map]; exact hLate⟩
        | cons second gap =>
            have hMore := hLast second (by simp [hLate])
            have hLess := hBefore second (by simp [hFront])
            omega
  · have hMem : line ∈ linesFrom (Text.size front + 1) back := by
      rw [hBack]
      simp
    have hLess := hBehind line hMem
    omega

/-- The directive lines up to one that ends at a line feed do not depend on what follows it. -/
theorem directiveLines_shared {front back : Text} {early late : List DirectiveLine}
    {line : DirectiveLine} (h : directiveLines (front ++ '\n' :: back) = early ++ line :: late)
    (hStop : line.span.stop = Text.size front) (other : Text) :
    directiveLines (front ++ '\n' :: other) =
      early ++ [line] ++ (directiveLines other).map (DirectiveLine.shift (Text.size front + 1)) := by
  have hPlain : ¬ Continues front := not_continues_of_stop (by rw [h]; simp) hStop
  have hOther := linesFrom_append_newline 0 hPlain other
  rw [Nat.zero_add, linesFrom_eq_map (Text.size front + 1)] at hOther
  rw [directiveLines, hOther]
  exact congrArg (· ++ _) (directiveLines_of_stop h hStop).1

/-- None of these lines ends behind the line feed. -/
theorem stop_le_of_stop {front back : Text} {early late : List DirectiveLine}
    {line : DirectiveLine} (h : directiveLines (front ++ '\n' :: back) = early ++ line :: late)
    (hStop : line.span.stop = Text.size front) :
    ∀ other ∈ early ++ [line], other.span.stop ≤ Text.size front := by
  intro other hOther
  rw [← (directiveLines_of_stop h hStop).1] at hOther
  have hStands := (spaced_directiveLines front).standsIn other hOther
  exact hStands.isLineEnd_stop.isBoundary.le_size

end Conditional

end ValueNames
