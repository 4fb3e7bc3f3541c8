import ValueNames.Yaml.Scalar.Basic

/-!
# Plain scalars

A plain scalar is written without quotes. It ends at a colon before a gap, at
a comment, at a document marker, inside brackets also at a bracket or a comma,
and outside of them at a line that is not indented far enough.

## Main results

* `plain?_length_le_tail` — a plain scalar takes at least its first character.
-/

namespace ValueNames.Yaml

/-- The part of a plain scalar on one line, and the rest; `flow` tells whether brackets are open. -/
def plainLine? (flow : Bool) : Source → Option (Text × Source)
  | [] => some ([], [])
  | c :: s =>
      if isBreak c.char then some ([], c :: s)
      else if c.char = ':' ∧ atGap s then some ([], c :: s)
      else if flow ∧ c.char = ':' ∧ begins (fun d => d = '?' || isFlowMark d) s then none
      else if flow ∧ isFlowMark c.char then some ([], c :: s)
      else if isWhite c.char ∧ begins (· = '#') s then some ([], c :: s)
      else (plainLine? flow s).map fun (taken, rest) => (c.char :: taken, rest)

/-- Whether a plain scalar does not go on with what comes after a line break. -/
def endsPlain (flow : Bool) (least : Nat) : Source → Bool
  | [] => true
  | c :: s =>
      atMarker (c :: s) || c.char = '#' || (c.char = ':' && atGap s) ||
        if flow then isFlowMark c.char else c.column < least

theorem plainLine?_length_le {flow : Bool} {s rest : Source} {taken : Text}
    (h : plainLine? flow s = some (taken, rest)) : rest.length ≤ s.length := by
  fun_induction plainLine? flow s generalizing taken rest with
  | case1 => cases h; exact Nat.le_refl _
  | case2 => cases h; exact Nat.le_refl _
  | case3 => cases h; exact Nat.le_refl _
  | case4 => cases h
  | case5 => cases h; exact Nat.le_refl _
  | case6 => cases h; exact Nat.le_refl _
  | case7 c s _ _ _ _ _ ih =>
      obtain ⟨⟨taken', rest'⟩, hRest, hEq⟩ := Option.map_eq_some_iff.mp h
      cases hEq
      exact Nat.le_succ_of_le (ih hRest)

/-- A line of a plain scalar takes its first character, if that one does not end it. -/
theorem plainLine?_length_le_tail {flow : Bool} {start : Nat} {c : Placed} {s rest : Source}
    {taken : Text} (hBreak : isBreak c.char = false) (hWhite : isWhite c.char = false)
    (hEnds : endsPlain flow start (c :: s) = false)
    (h : plainLine? flow (c :: s) = some (taken, rest)) : rest.length ≤ s.length := by
  have hColon : ¬(c.char = ':' ∧ atGap s = true) := by
    rintro ⟨hc, hGap⟩
    simp [endsPlain, hc, hGap] at hEnds
  have hFlow : ¬(flow = true ∧ isFlowMark c.char = true) := by
    rintro ⟨hFlow, hMark⟩
    simp [endsPlain, hFlow, hMark] at hEnds
  have hComment : ¬(isWhite c.char = true ∧ begins (· = '#') s = true) := by simp [hWhite]
  unfold plainLine? at h
  rw [if_neg (by simp [hBreak]), if_neg hColon, if_neg hFlow, if_neg hComment] at h
  split at h
  · cases h
  · obtain ⟨⟨taken', rest'⟩, hRest, hEq⟩ := Option.map_eq_some_iff.mp h
    cases hEq
    exact plainLine?_length_le hRest

/--
A plain scalar whose further lines stand at the column `least` or to the right
of it, whether there is a line break behind it, and the rest.
-/
def plain? (flow : Bool) (least : Nat) (s : Source) : Option (Text × Bool × Source) :=
  match hLine : plainLine? flow s with
  | none => none
  | some (taken, []) => some (trimWhite taken, false, [])
  | some (taken, c :: rest) =>
      if isBreak c.char then
        match hBreaks : skipBreaks? least rest with
        | none => none
        | some (breaks, next) =>
            if endsPlain flow least next then some (trimWhite taken, true, next)
            else
              have hLess : next.length < s.length := by
                have hLine' := plainLine?_length_le hLine
                have hBreaks' := skipBreaks?_length_le hBreaks
                rw [List.length_cons] at hLine'
                omega
              (plain? flow least next).map fun (further, broken, last) =>
                (trimWhite taken ++ folded (c.char :: breaks) ++ further, broken, last)
      else some (trimWhite taken, false, c :: rest)
termination_by s.length
decreasing_by exact hLess

theorem plain?_length_le {flow : Bool} {least : Nat} {s rest : Source} {text : Text}
    {broken : Bool} (h : plain? flow least s = some (text, broken, rest)) :
    rest.length ≤ s.length := by
  fun_induction plain? flow least s generalizing text broken rest with
  | case1 => cases h
  | case2 s taken hLine => cases h; exact Nat.zero_le _
  | case3 => cases h
  | case4 s taken c rest' hLine _ breaks next hBreaks _ =>
      cases h
      have hLine' := plainLine?_length_le hLine
      have hBreaks' := skipBreaks?_length_le hBreaks
      rw [List.length_cons] at hLine'
      omega
  | case5 s taken c rest' hLine _ breaks next hBreaks _ hLess ih =>
      obtain ⟨⟨further, broken', last⟩, hFurther, hEq⟩ := Option.map_eq_some_iff.mp h
      cases hEq
      exact Nat.le_trans (ih hFurther) (Nat.le_of_lt hLess)
  | case6 s taken c rest' hLine _ =>
      cases h
      exact plainLine?_length_le hLine

theorem plain?_length_le_tail {flow : Bool} {least start : Nat} {c : Placed} {s rest : Source}
    {text : Text} {broken : Bool} (hBreak : isBreak c.char = false)
    (hWhite : isWhite c.char = false) (hEnds : endsPlain flow start (c :: s) = false)
    (h : plain? flow least (c :: s) = some (text, broken, rest)) : rest.length ≤ s.length := by
  unfold plain? at h
  split at h
  · cases h
  · cases h
    exact Nat.zero_le _
  · rename_i taken d rest' hLine
    have hTaken := plainLine?_length_le_tail hBreak hWhite hEnds hLine
    split at h
    · split at h
      · cases h
      · rename_i breaks next hBreaks
        have hNext := skipBreaks?_length_le hBreaks
        rw [List.length_cons] at hTaken
        split at h
        · cases h
          omega
        · obtain ⟨⟨further, broken', last⟩, hFurther, hEq⟩ := Option.map_eq_some_iff.mp h
          cases hEq
          have hLast := plain?_length_le hFurther
          omega
    · cases h
      exact hTaken

end ValueNames.Yaml
