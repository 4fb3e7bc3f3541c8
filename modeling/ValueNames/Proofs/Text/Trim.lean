import Mathlib.Data.List.TakeWhile
import ValueNames.Text.Blank
import ValueNames.Text.Lines

/-!
# Trimmed texts

Trimming takes the blanks off the end of a text, or off both of its ends. What is left
depends neither on how many blanks stood there nor on trimming a second time.

## Main results

* `trimEnd_append_gap`, `trim_append_gap` — blanks at the end do not count.
* `trimEnd_append_of_ne_nil` — a text that does not end blank ends where its second part does.
* `trimEnd_trimEnd`, `trim_trim` — what is trimmed stays as it is.
-/

namespace ValueNames.Text

/-! ## Blanks at the end -/

theorem trimEnd_append_gap {gap : Text} (hGap : ∀ c ∈ gap, isBlank c = true) (s : Text) :
    trimEnd (s ++ gap) = trimEnd s := by
  have hReverse : ∀ c ∈ gap.reverse, isBlank c = true :=
    fun c hc => hGap c (List.mem_reverse.mp hc)
  rw [trimEnd, List.reverse_append, List.dropWhile_append_of_pos hReverse, trimEnd]

/-- A text that does not end blank ends where its second part does. -/
theorem trimEnd_append_of_ne_nil {t : Text} (h : trimEnd t ≠ []) (s : Text) :
    trimEnd (s ++ t) = s ++ trimEnd t := by
  have hSome : ¬ (t.reverse.dropWhile isBlank).isEmpty = true := by
    intro hEmpty
    apply h
    rw [trimEnd, List.isEmpty_iff.mp hEmpty]
    rfl
  rw [trimEnd, List.reverse_append, List.dropWhile_append, if_neg hSome, List.reverse_append,
    List.reverse_reverse, trimEnd]

theorem trimEnd_cons_of_not_isBlank {c : Char} (h : isBlank c = false) (s : Text) :
    trimEnd (c :: s) = c :: trimEnd s := by
  by_cases hSome : trimEnd s = []
  · have hBlank : ∀ d ∈ s, isBlank d = true := by
      intro d hd
      rw [trimEnd, List.reverse_eq_nil_iff, List.dropWhile_eq_nil_iff] at hSome
      exact hSome d (List.mem_reverse.mpr hd)
    have hOne : trimEnd [c] = [c] := by
      rw [trimEnd, List.reverse_singleton, List.dropWhile_cons_of_neg (by simp [h])]
      rfl
    rw [hSome, ← List.singleton_append, trimEnd_append_gap hBlank, hOne]
  · rw [← List.singleton_append, trimEnd_append_of_ne_nil hSome]
    rfl

/-- A trimmed text does not end with a blank. -/
theorem not_isBlank_getLast_trimEnd {s : Text} {c : Char} (h : (trimEnd s).getLast? = some c) :
    isBlank c = false := by
  rw [trimEnd, List.getLast?_reverse] at h
  have hHead := List.head?_dropWhile_not isBlank s.reverse
  rw [h] at hHead
  simpa using hHead

/-- A text is what is left without the blanks at its end, and these blanks. -/
theorem exists_gap_trimEnd (s : Text) :
    ∃ tail, s = trimEnd s ++ tail ∧ ∀ c ∈ tail, isBlank c = true := by
  refine ⟨(s.reverse.takeWhile isBlank).reverse, ?_, ?_⟩
  · rw [trimEnd, ← List.reverse_append, List.takeWhile_append_dropWhile, List.reverse_reverse]
  · intro c hc
    exact List.all_eq_true.mp List.all_takeWhile c (List.mem_reverse.mp hc)

theorem mem_of_mem_trimEnd {s : Text} {c : Char} (h : c ∈ trimEnd s) : c ∈ s := by
  obtain ⟨tail, hText, _⟩ := exists_gap_trimEnd s
  rw [hText]
  exact List.mem_append_left tail h

/-- What is trimmed at its end stays as it is. -/
theorem trimEnd_trimEnd (s : Text) : trimEnd (trimEnd s) = trimEnd s := by
  obtain ⟨tail, hText, hTail⟩ := exists_gap_trimEnd s
  calc trimEnd (trimEnd s)
      = trimEnd (trimEnd s ++ tail) := (trimEnd_append_gap hTail _).symm
    _ = trimEnd s := by rw [← hText]

/-! ## Blanks at both ends -/

theorem trim_gap_append {gap : Text} (hGap : ∀ c ∈ gap, isBlank c = true) (s : Text) :
    trim (gap ++ s) = trim s := by
  rw [trim, trimStart, List.dropWhile_append_of_pos hGap]
  rfl

theorem trim_append_gap {gap : Text} (hGap : ∀ c ∈ gap, isBlank c = true) (s : Text) :
    trim (s ++ gap) = trim s := by
  by_cases hBlank : allBlank s = true
  · have hBoth : allBlank (s ++ gap) = true := by
      rw [allBlank, List.all_append, Bool.and_eq_true]
      exact ⟨hBlank, List.all_eq_true.mpr hGap⟩
    rw [(trim_eq_nil_iff s).mpr hBlank, (trim_eq_nil_iff _).mpr hBoth]
  · have hSome : trimStart s ≠ [] := by
      intro hNone
      exact hBlank (List.all_eq_true.mpr (List.dropWhile_eq_nil_iff.mp hNone))
    have hStart : trimStart (s ++ gap) = trimStart s ++ gap := by
      have hFilled : ¬ (s.dropWhile isBlank).isEmpty = true :=
        fun hEmpty => hSome (List.isEmpty_iff.mp hEmpty)
      rw [trimStart, List.dropWhile_append, if_neg hFilled, trimStart]
    rw [trim, hStart, trimEnd_append_gap hGap, trim]

theorem mem_of_mem_trim {s : Text} {c : Char} (h : c ∈ trim s) : c ∈ s :=
  (List.dropWhile_suffix isBlank).subset (mem_of_mem_trimEnd h)

/-- Trimming the end first changes nothing. -/
theorem trim_trimEnd (s : Text) : trim (trimEnd s) = trim s := by
  obtain ⟨tail, hText, hTail⟩ := exists_gap_trimEnd s
  calc trim (trimEnd s)
      = trim (trimEnd s ++ tail) := (trim_append_gap hTail _).symm
    _ = trim s := by rw [← hText]

/-- What is trimmed has no blanks at its ends. -/
theorem trim_trim (s : Text) : trim (trim s) = trim s := by
  have hLead : ∀ c ∈ s.takeWhile isBlank, isBlank c = true :=
    List.all_eq_true.mp List.all_takeWhile
  calc trim (trim s)
      = trim (trimStart s) := trim_trimEnd _
    _ = trim (s.takeWhile isBlank ++ trimStart s) := (trim_gap_append hLead _).symm
    _ = trim s := by rw [trimStart, List.takeWhile_append_dropWhile]

/-- Of a text with more than blanks something is left. -/
theorem trim_ne_nil {s : Text} (h : trimEnd s ≠ []) : trim s ≠ [] := by
  intro hNone
  rw [trim_eq_nil_iff] at hNone
  exact h (trimEnd_append_gap (List.all_eq_true.mp hNone) [])

/-- A text without blanks is trimmed. -/
theorem trim_of_not_blank {s : Text} (h : ∀ c ∈ s, isBlank c = false) : trim s = s := by
  have hNone : ∀ t : Text, (∀ c ∈ t, isBlank c = false) → t.dropWhile isBlank = t := by
    intro t ht
    cases t with
    | nil => rfl
    | cons c t =>
        have hc := ht c List.mem_cons_self
        exact List.dropWhile_cons_of_neg (by simp [hc])
  rw [trim, trimStart, hNone s h, trimEnd,
    hNone s.reverse (fun c hc => h c (List.mem_reverse.mp hc)), List.reverse_reverse]

/-- A carriage return at the end of a line is one of the blanks that do not count. -/
theorem trim_dropReturn (line : Text) : trim (dropReturn line) = trim line := by
  unfold dropReturn
  split
  · rename_i hLast
    obtain ⟨front, rfl⟩ := List.getLast?_eq_some_iff.mp hLast
    have hGap : ∀ c ∈ ['\r'], isBlank c = true := List.forall_mem_singleton.mpr (by decide)
    rw [List.dropLast_concat, trim_append_gap hGap]
  · rfl

end ValueNames.Text
