import ValueNames.Proofs.Conditional.Seam
import ValueNames.Proofs.Conditional.Truth

/-!
# Texts of whole lines

A text whose last line is ended by a line feed that joins nothing can be written in front of
any other text. The directive lines of the two are those of each, so what is compiled behind
the first text depends on its own directive lines alone. If they are balanced, it makes no
difference.

## Main results

* `WholeLines.append` — whole lines behind whole lines are whole lines.
* `WholeLines.directiveLines_append` — the directive lines of whole lines and what follows them.
* `Balanced.truths_eq` — balanced directive lines leave the open conditions as they are.
* `LeavesOpen.append`, `LeavesOpen.compiled_append` — what whole lines leave open, and what is
  compiled behind them.
-/

namespace ValueNames

namespace Conditional

/-! ## Reading with truth values -/

section Truths

variable (holds : Guard → Bool) (values : List Bool)

theorem truths_cons (line : DirectiveLine) (rest : List DirectiveLine) :
    truths holds values (line :: rest) = truths holds (truths holds values [line]) rest := by
  cases hLine : line.directive with
  | opens opener => simp only [truths, hLine]
  | closes closer =>
      cases values with
      | nil => simp only [truths, hLine]
      | cons value outer =>
          cases closer with
          | alternative => simp only [truths, hLine]
          | final => simp only [truths, hLine]

theorem truths_append (front back : List DirectiveLine) :
    truths holds values (front ++ back) = truths holds (truths holds values front) back := by
  induction front generalizing values with
  | nil => rfl
  | cons line front ih =>
      rw [List.cons_append, truths_cons, ih, ← truths_cons]

/-- Where the directive lines stand makes no difference. -/
theorem truths_map_shift (base : Nat) (lines : List DirectiveLine) :
    truths holds values (lines.map (DirectiveLine.shift base)) = truths holds values lines := by
  induction lines generalizing values with
  | nil => rfl
  | cons line lines ih =>
      rw [List.map_cons, truths_cons, ih, truths_cons holds values line]
      rfl

end Truths

end Conditional

open Conditional

/-- What is read as a forest leaves the conditions around it as they are. -/
theorem Forest.Reads.truths_append {first : Option Block} {lines rest : List DirectiveLine}
    {forest : Forest} (h : Reads first lines forest rest) (holds : Guard → Bool)
    (inner outer : List Bool) (hInner : inner.length = first.toList.length) :
    truths holds (inner ++ outer) lines = truths holds outer rest := by
  induction h generalizing inner outer with
  | stop _ =>
      obtain rfl := List.eq_nil_of_length_eq_zero hInner
      rfl
  | @opens line lines rest forest opener hOpens _ ih =>
      obtain rfl := List.eq_nil_of_length_eq_zero hInner
      have hFirst := ih [holds ⟨opener, line.condition⟩] outer rfl
      simpa [truths, hOpens] using hFirst
  | @closes block lines between rest line inside after closer _ hCloses _ ihInside ihAfter =>
      obtain ⟨top, rfl⟩ := List.length_eq_one_iff.mp hInner
      have hInside := ihInside [] (top :: outer) rfl
      rw [List.nil_append] at hInside
      rw [List.singleton_append, hInside]
      cases closer with
      | alternative =>
          have hAfter := ihAfter [!top] outer rfl
          simpa [truths, hCloses] using hAfter
      | final =>
          have hAfter := ihAfter [] outer rfl
          simpa [truths, hCloses] using hAfter

namespace Conditional

/-- Balanced directive lines leave the open conditions as they are. -/
theorem Balanced.truths_eq {lines : List DirectiveLine} (h : Balanced lines)
    (holds : Guard → Bool) (values : List Bool) : truths holds values lines = values := by
  obtain ⟨forest, hForest⟩ := Forest.exists_isOf_iff.mpr h
  exact hForest.truths_append holds [] values rfl

/-! ## Whole lines -/

/-- Whether nothing that is written behind a text is joined to its last line. -/
def WholeLines (s : Text) : Prop := s = [] ∨ ∃ front, s = front ++ ['\n'] ∧ ¬ Continues front

variable {s t : Text}

theorem wholeLines_of_not_continues (h : ¬ Continues s) : WholeLines (s ++ ['\n']) :=
  .inr ⟨s, rfl, h⟩

/-- Whether a text ends so can be tried out. -/
theorem wholeLines_of_dropLast (hLast : s.getLast? = some '\n') (hEnd : ¬ Continues s.dropLast) :
    WholeLines s := by
  obtain ⟨front, rfl⟩ := List.getLast?_eq_some_iff.mp hLast
  rw [List.dropLast_concat] at hEnd
  exact wholeLines_of_not_continues hEnd

/-- A line feed at the end of a text that joins nothing does not change its directive lines. -/
theorem directiveLines_concat (h : ¬ Continues s) :
    directiveLines (s ++ ['\n']) = directiveLines s := by
  rw [directiveLines, linesFrom_append_newline 0 h, linesFrom, List.append_nil]
  rfl

/-- Only a backslash, or a carriage return behind one, joins what follows. -/
theorem not_continues_of_getLast? {c : Char} (hLast : s.getLast? = some c)
    (hc : c ≠ '\\' ∧ c ≠ '\r') : ¬ Continues s := by
  obtain ⟨front, rfl⟩ := List.getLast?_eq_some_iff.mp hLast
  intro hJoins
  have hNone : Continues [] := hJoins.of_append hc
  exact absurd hNone (by decide)

/-- The directive lines of a text end inside it. -/
theorem stop_le_of_mem_directiveLines {line : DirectiveLine} (h : line ∈ directiveLines s) :
    line.span.stop ≤ Text.size s := by
  obtain ⟨front, back, hSource, _, hSize⟩ :=
    ((spaced_directiveLines s).standsIn line h).isLineEnd_stop
  rw [hSource, Text.size_append, hSize]
  exact Nat.le_add_right _ _

/-- A text without the mark has no directive lines. -/
theorem directiveLines_of_not_mem (h : '#' ∉ s) : directiveLines s = [] := by
  refine List.eq_nil_iff_forall_not_mem.mpr fun line hLine => h ?_
  obtain ⟨front, blanks, text, back, rfl, _⟩ := (spaced_directiveLines s).standsIn line hLine
  simp

/-- A text that is read as one directive line has no other. -/
theorem directiveLines_of_lineAt? {line : DirectiveLine}
    (h : lineAt? 0 (s ++ ['\n']) = some (line, ['\n'])) :
    directiveLines (s ++ ['\n']) = [line] := by
  rw [directiveLines, linesFrom_eq]
  simp only [readLine, h, nextLine]
  rw [List.dropWhile_cons_of_neg (by simp), List.drop_succ_cons, List.drop_zero, linesFrom]
  rfl

/-- A line that is no directive line is passed over. -/
theorem directiveLines_of_lineAt?_none (hLine : '\n' ∉ s) {v : Text}
    (h : lineAt? 0 (s ++ '\n' :: v) = none) :
    directiveLines (s ++ '\n' :: v) =
      (directiveLines v).map (DirectiveLine.shift (Text.size s + 1)) := by
  have hFeed : ∀ c ∈ s, decide (c ≠ '\n') = true := by
    intro c hc
    exact decide_eq_true fun hSame => hLine (hSame ▸ hc)
  have hTaken : (s ++ '\n' :: v).takeWhile (· ≠ '\n') = s := by
    rw [List.takeWhile_append_of_pos hFeed, List.takeWhile_cons_of_neg (by simp), List.append_nil]
  have hDropped : (s ++ '\n' :: v).dropWhile (· ≠ '\n') = '\n' :: v := by
    rw [List.dropWhile_append_of_pos hFeed, List.dropWhile_cons_of_neg (by simp)]
  rw [directiveLines, linesFrom_eq]
  simp only [readLine, h, nextLine, hTaken, hDropped]
  rw [← linesFrom_eq_map, Nat.zero_add]
  rfl

namespace WholeLines

theorem append (hFront : WholeLines s) (hBack : WholeLines t) : WholeLines (s ++ t) := by
  rcases hBack with rfl | ⟨back, rfl, hBack⟩
  · rwa [List.append_nil]
  rcases hFront with rfl | ⟨front, rfl, hFront⟩
  · exact .inr ⟨back, rfl, hBack⟩
  · refine .inr ⟨front ++ '\n' :: back, by simp, fun hJoins => ?_⟩
    exact hBack (hJoins.of_append (by decide))

/-- The directive lines of whole lines and of what follows them are those of each. -/
theorem directiveLines_append (h : WholeLines s) (v : Text) :
    directiveLines (s ++ v) =
      directiveLines s ++ (directiveLines v).map (DirectiveLine.shift (Text.size s)) := by
  rcases h with rfl | ⟨front, rfl, hFront⟩
  · rw [directiveLines, directiveLines, linesFrom, List.nil_append, List.nil_append]
    exact linesFrom_eq_map 0 v
  · have hSize : Text.size (front ++ ['\n']) = 0 + Text.size front + 1 := by
      rw [Text.size_append, Nat.zero_add]
      rfl
    rw [directiveLines_concat hFront, hSize, ← linesFrom_eq_map, List.append_assoc]
    exact linesFrom_append_newline 0 hFront v

/-- The directive lines of whole lines end there, and the others begin behind them. -/
theorem stop_le_or_le_start (h : WholeLines s) (v : Text) :
    ∀ line ∈ directiveLines (s ++ v),
      line.span.stop ≤ Text.size s ∨ Text.size s ≤ line.span.start := by
  intro line hLine
  rw [h.directiveLines_append, List.mem_append] at hLine
  rcases hLine with hFront | hBack
  · exact .inl (stop_le_of_mem_directiveLines hFront)
  · obtain ⟨own, _, rfl⟩ := List.mem_map.mp hBack
    exact .inr (Nat.le_add_left _ _)

/-- Behind whole lines is compiled what their own directive lines leave open. -/
theorem compiled_append (h : WholeLines s) (holds : Guard → Bool) (v : Text) :
    compiled holds (directiveLines (s ++ v)) (Text.size s) =
      (truths holds [] (directiveLines s)).all id := by
  have hFront : (directiveLines s).filter (fun line => line.span.start < Text.size s) =
      directiveLines s := by
    apply List.filter_eq_self.mpr
    intro line hLine
    have hOwn := ((spaced_directiveLines s).standsIn line hLine).start_lt_stop
    have hStop := stop_le_of_mem_directiveLines hLine
    exact decide_eq_true (Nat.lt_of_lt_of_le hOwn hStop)
  have hBack : ((directiveLines v).map (DirectiveLine.shift (Text.size s))).filter
      (fun line => line.span.start < Text.size s) = [] := by
    apply List.filter_eq_nil_iff.mpr
    intro line hLine
    obtain ⟨own, _, rfl⟩ := List.mem_map.mp hLine
    have hStart : ¬ (own.shift (Text.size s)).span.start < Text.size s :=
      Nat.not_lt.mpr (Nat.le_add_left _ _)
    simpa only [decide_eq_true_eq] using hStart
  rw [compiled, h.directiveLines_append, List.filter_append, hFront, hBack, List.append_nil]

end WholeLines

/-- Whole lines that turn the conditions open ahead of them into those open behind them. -/
structure LeavesOpen (s : Text) (behind : (Guard → Bool) → List Bool → List Bool) : Prop where
  wholeLines : WholeLines s
  truths_eq : ∀ holds values, truths holds values (directiveLines s) = behind holds values

namespace LeavesOpen

variable {first second : (Guard → Bool) → List Bool → List Bool}

theorem append (hFront : LeavesOpen s first) (hBack : LeavesOpen t second) :
    LeavesOpen (s ++ t) fun holds values => second holds (first holds values) where
  wholeLines := hFront.wholeLines.append hBack.wholeLines
  truths_eq holds values := by
    rw [hFront.wholeLines.directiveLines_append, truths_append, truths_map_shift,
      hFront.truths_eq, hBack.truths_eq]

/-- Balanced directive lines leave the conditions as they are. -/
theorem of_balanced (hLines : WholeLines s) (hBalanced : Balanced (directiveLines s)) :
    LeavesOpen s fun _ values => values :=
  ⟨hLines, hBalanced.truths_eq⟩

/-- So does a text without directive lines. -/
theorem of_eq_nil (hLines : WholeLines s) (hNone : directiveLines s = []) :
    LeavesOpen s fun _ values => values :=
  .of_balanced hLines (by rw [hNone]; rfl)

/-- A text without the mark has no directive lines. -/
theorem of_not_mem (hLines : WholeLines s) (hMark : '#' ∉ s) :
    LeavesOpen s fun _ values => values :=
  .of_eq_nil hLines (directiveLines_of_not_mem hMark)

/-- Behind whole lines is compiled what they leave open. -/
theorem compiled_append (h : LeavesOpen s first) (holds : Guard → Bool) (v : Text) :
    compiled holds (directiveLines (s ++ v)) (Text.size s) = (first holds []).all id := by
  rw [h.wholeLines.compiled_append, h.truths_eq]

end LeavesOpen

end Conditional

end ValueNames
