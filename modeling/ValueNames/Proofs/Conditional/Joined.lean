import ValueNames.Proofs.Conditional.Seam
import ValueNames.Proofs.Text.Pieces
import ValueNames.Proofs.Text.Trim

/-!
# Joined lines

A directive line is blanks, its mark, blanks, its keyword, and then a logical line, which
may go over several lines of the text. All of these but the last end with what joins the
next one, so that a logical line can be cut at its line feeds and put together again.

## Main results

* `keyword?_eq_some_iff`, `lineAt?_eq_some_iff` — the pieces of a directive line.
* `lineAt?_written` — a directive line is read as it was written.
* `logicalLine_append_of_continues` — a line feed that is joined does not end the line.
* `isJoined_logicalLine`, `IsJoined.of_prefix` — where all lines are joined to the first.
* `isJoined_iff` — each of them but the last joins the next one.
-/

namespace ValueNames

open Text

/-- What a directive begins with: an opening keyword has a space or a tab behind it. -/
def Directive.IsLead : Directive → Text → Prop
  | opens opener, lead => ∃ c, isSpaceOrTab c = true ∧ lead = opener.word ++ [c]
  | closes closer, lead => lead = closer.word

/-- No keyword begins with a blank, and none goes over a line. -/
theorem Directive.IsLead.head {directive : Directive} {lead : Text} (h : directive.IsLead lead) :
    (∃ c tail, lead = c :: tail ∧ isSpaceOrTab c = false ∧ isBlank c = false) ∧ '\n' ∉ lead := by
  cases directive with
  | closes closer =>
      obtain rfl := h
      cases closer with
      | alternative => exact ⟨⟨'e', "lse".toList, rfl, by decide, by decide⟩, by decide⟩
      | final => exact ⟨⟨'e', "ndif".toList, rfl, by decide, by decide⟩, by decide⟩
  | opens opener =>
      obtain ⟨c, hc, rfl⟩ := h
      have hNewline : '\n' ≠ c := by
        rintro rfl
        exact absurd hc (by decide)
      refine ⟨?_, ?_⟩
      · cases opener with
        | expression => exact ⟨'i', 'f' :: [c], rfl, by decide, by decide⟩
        | defined => exact ⟨'i', "fdef".toList ++ [c], rfl, by decide, by decide⟩
        | undefined => exact ⟨'i', "fndef".toList ++ [c], rfl, by decide, by decide⟩
      · rw [List.mem_append, not_or, List.mem_singleton]
        refine ⟨?_, hNewline⟩
        cases opener <;> decide

namespace Conditional

variable {s rest : Text} {directive : Directive}

/-! ## The pieces of a directive line -/

/-- A directive is read off what it begins with. -/
theorem keyword?_eq_some_iff :
    keyword? s = some (directive, rest) ↔ ∃ lead, directive.IsLead lead ∧ s = lead ++ rest := by
  constructor
  · intro h
    rcases Option.or_eq_some_iff.mp h with hOpen | ⟨_, hClose⟩
    · obtain ⟨opener, _, hOpen⟩ := List.exists_of_findSome?_eq_some hOpen
      unfold openedBy? at hOpen
      split at hOpen
      · rename_i c tail hLead
        split at hOpen
        · rename_i hBlank
          cases hOpen
          refine ⟨opener.word ++ [c], ⟨c, hBlank, rfl⟩, ?_⟩
          rw [stripLead?_eq_some_iff.mp hLead, List.append_assoc, List.singleton_append]
        · cases hOpen
      · cases hOpen
    · obtain ⟨closer, _, hClose⟩ := List.exists_of_findSome?_eq_some hClose
      obtain ⟨tail, hLead, hEq⟩ := Option.map_eq_some_iff.mp hClose
      cases hEq
      exact ⟨closer.word, rfl, stripLead?_eq_some_iff.mp hLead⟩
  · rintro ⟨lead, hLead, rfl⟩
    cases directive with
    | closes closer =>
        obtain rfl := hLead
        cases closer with
        | alternative => rfl
        | final => rfl
    | opens opener =>
        obtain ⟨c, hc, rfl⟩ := hLead
        have hKinds := isSpaceOrTab_iff.mp hc
        cases opener with
        | expression => rcases hKinds with rfl | rfl <;> rfl
        | defined => rcases hKinds with rfl | rfl <;> rfl
        | undefined => rcases hKinds with rfl | rfl <;> rfl

theorem dropWhile_blanks_append {blanks s : Text} (hBlanks : ∀ c ∈ blanks, isSpaceOrTab c = true)
    (hHead : ∃ c tail, s = c :: tail ∧ isSpaceOrTab c = false) :
    (blanks ++ s).dropWhile isSpaceOrTab = s := by
  obtain ⟨c, tail, rfl, hc⟩ := hHead
  rw [List.dropWhile_append_of_pos hBlanks, List.dropWhile_cons_of_neg (by simp [hc])]

/-- A directive line is read where blanks, its mark, blanks and its keyword stand. -/
theorem lineAt?_eq_some_iff {offset : Nat} {line : DirectiveLine} :
    lineAt? offset s = some (line, rest) ↔
      ∃ blanks gap lead behind, (∀ c ∈ blanks, isSpaceOrTab c = true) ∧
        (∀ c ∈ gap, isSpaceOrTab c = true) ∧ line.directive.IsLead lead ∧
        s = blanks ++ '#' :: (gap ++ (lead ++ behind)) ∧
        line.condition = trimEnd (logicalLine (behind.dropWhile isSpaceOrTab)).1 ∧
        rest = (logicalLine (behind.dropWhile isSpaceOrTab)).2 ∧
        line.span = ⟨offset, offset + (size s - size rest)⟩ := by
  constructor
  · intro h
    unfold lineAt? at h
    split at h
    · rename_i afterMark hMark
      obtain ⟨⟨directive, behind⟩, hWord, hEq⟩ := Option.map_eq_some_iff.mp h
      obtain ⟨rfl, rfl⟩ := Prod.mk.inj hEq
      obtain ⟨lead, hLead, hSplit⟩ := keyword?_eq_some_iff.mp hWord
      refine ⟨s.takeWhile isSpaceOrTab, afterMark.takeWhile isSpaceOrTab, lead, behind,
        List.all_eq_true.mp List.all_takeWhile, List.all_eq_true.mp List.all_takeWhile, hLead,
        ?_, rfl, rfl, rfl⟩
      rw [← hSplit, List.takeWhile_append_dropWhile, ← hMark, List.takeWhile_append_dropWhile]
    · cases h
  · rintro ⟨blanks, gap, lead, behind, hBlanks, hGap, hLead, rfl, hCondition, rfl, hSpan⟩
    obtain ⟨⟨c, tail, hHead, hc, _⟩, _⟩ := hLead.head
    have hMark : (blanks ++ '#' :: (gap ++ (lead ++ behind))).dropWhile isSpaceOrTab =
        '#' :: (gap ++ (lead ++ behind)) :=
      dropWhile_blanks_append hBlanks ⟨'#', _, rfl, by decide⟩
    have hWord : (gap ++ (lead ++ behind)).dropWhile isSpaceOrTab = lead ++ behind :=
      dropWhile_blanks_append hGap ⟨c, tail ++ behind, by rw [hHead]; rfl, hc⟩
    have hRead : keyword? (lead ++ behind) = some (line.directive, behind) :=
      keyword?_eq_some_iff.mpr ⟨lead, hLead, rfl⟩
    obtain ⟨directive, condition, span⟩ := line
    simp only at hCondition hSpan hRead
    simp only [lineAt?, hMark, hWord, hRead, Option.map_some, hCondition, hSpan]

/-- A directive line is read as it was written, up to the end of its logical line. -/
theorem lineAt?_written {gap lead space param text v : Text}
    (hGap : ∀ c ∈ gap, isSpaceOrTab c = true) (hLead : directive.IsLead lead)
    (hSpace : ∀ c ∈ space, isSpaceOrTab c = true) (hHead : ∀ c ∈ param.head?, isSpaceOrTab c = false)
    (hLogical : logicalLine (param ++ '\n' :: v) = (text, rest)) :
    lineAt? 0 ('#' :: (gap ++ (lead ++ (space ++ param))) ++ '\n' :: v) =
      some (⟨directive, trimEnd text, ⟨0, size ('#' :: (gap ++ (lead ++ (space ++ text))))⟩⟩,
        rest) := by
  have hDrop : (space ++ (param ++ '\n' :: v)).dropWhile isSpaceOrTab = param ++ '\n' :: v := by
    apply dropWhile_blanks_append hSpace
    cases param with
    | nil => exact ⟨'\n', v, rfl, by decide⟩
    | cons c param => exact ⟨c, param ++ '\n' :: v, rfl, hHead c rfl⟩
  have hBoth : text ++ rest = param ++ '\n' :: v := by
    have hWhole := logicalLine_append (param ++ '\n' :: v)
    rwa [hLogical] at hWhole
  refine lineAt?_eq_some_iff.mpr ⟨[], gap, lead, space ++ (param ++ '\n' :: v), by simp, hGap, hLead,
    by simp, ?_, ?_, ?_⟩
  · rw [hDrop, hLogical]
  · rw [hDrop, hLogical]
  · have hText : '#' :: (gap ++ (lead ++ (space ++ param))) ++ '\n' :: v =
        '#' :: (gap ++ (lead ++ (space ++ text))) ++ rest := by
      simp [← hBoth]
    rw [hText, size_append, Nat.add_sub_cancel, Nat.zero_add]

/-- Where the first character that is no space or tab is not the mark, no directive stands. -/
theorem lineAt?_eq_none {offset : Nat} {blanks : Text} {c : Char}
    (hBlanks : ∀ d ∈ blanks, isSpaceOrTab d = true) (hc : isSpaceOrTab c = false)
    (hMark : c ≠ '#') (s : Text) : lineAt? offset (blanks ++ c :: s) = none := by
  rw [lineAt?, dropWhile_blanks_append hBlanks ⟨c, s, rfl, hc⟩]
  split
  · rename_i hFirst
    exact absurd (List.cons.inj hFirst).1 hMark
  · rfl

/-! ## Lines that are joined -/

/-- At the end of a trimmed text only a backslash joins lines. -/
theorem continues_iff_of_trimEnd_eq (h : trimEnd s = s) :
    Continues s ↔ s.getLast? = some '\\' := by
  constructor
  · rintro (⟨front, rfl⟩ | ⟨front, rfl⟩)
    · exact List.getLast?_concat
    · have hLast : (trimEnd (front ++ ['\\', '\r'])).getLast? = some '\r' := by
        rw [h, List.getLast?_append]
        rfl
      exact absurd (not_isBlank_getLast_trimEnd hLast) (by decide)
  · intro hLast
    obtain ⟨front, rfl⟩ := List.getLast?_eq_some_iff.mp hLast
    exact .inl (List.suffix_append _ _)

/-- Whether all lines of a text are joined to the first one. -/
def IsJoined (s : Text) : Prop := logicalLine s = (s, [])

instance : DecidablePred IsJoined := fun s => inferInstanceAs (Decidable (logicalLine s = (s, [])))

theorem isJoined_iff_snd : IsJoined s ↔ (logicalLine s).2 = [] := by
  constructor
  · intro h
    rw [h]
  · intro h
    have hBoth := logicalLine_append s
    rw [h, List.append_nil] at hBoth
    exact Prod.ext hBoth h

/-- A text without a line feed is one line. -/
theorem isJoined_of_not_mem (h : '\n' ∉ s) : IsJoined s := by
  rw [isJoined_iff_snd]
  rcases logicalLine_snd s with hNone | ⟨next, hNext⟩
  · exact hNone
  · have hBoth := logicalLine_append s
    rw [hNext] at hBoth
    exact absurd (by rw [← hBoth]; simp) h

/-- A line feed that ends a logical line is not joined, so that it ends every longer text. -/
theorem exists_of_not_isJoined (h : ¬ IsJoined s) :
    ∃ line next, s = line ++ '\n' :: next ∧ ¬ Continues line := by
  rw [isJoined_iff_snd] at h
  rcases logicalLine_snd s with hNone | ⟨next, hNext⟩
  · exact absurd hNone h
  · have hBoth := logicalLine_append s
    rw [hNext] at hBoth
    exact ⟨_, next, hBoth.symm, not_continues_logicalLine hNext⟩

/-- Among joined lines, what stands in front of a line feed joins the next line. -/
theorem IsJoined.continues {line next : Text} (h : IsJoined (line ++ '\n' :: next)) :
    Continues line := by
  refine Decidable.byContradiction fun hEnd => ?_
  rw [isJoined_iff_snd, logicalLine_append_newline next hEnd] at h
  simp at h

theorem IsJoined.of_prefix {t : Text} (h : IsJoined t) (hPrefix : s <+: t) : IsJoined s := by
  refine Decidable.byContradiction fun hNot => ?_
  obtain ⟨line, next, rfl, hEnd⟩ := exists_of_not_isJoined hNot
  obtain ⟨tail, rfl⟩ := hPrefix
  rw [List.append_assoc, List.cons_append] at h
  exact hEnd h.continues

/-- The lines of a logical line are joined. -/
theorem isJoined_logicalLine (s : Text) : IsJoined (logicalLine s).1 := by
  refine Decidable.byContradiction fun hNot => ?_
  obtain ⟨line, next, hLine, hEnd⟩ := exists_of_not_isJoined hNot
  have hBoth := logicalLine_append s
  rw [hLine, List.append_assoc, List.cons_append] at hBoth
  -- Then the logical line would end before the line feed.
  have hCut := logicalLine_append_newline (next ++ (logicalLine s).2) hEnd
  rw [hBoth] at hCut
  have hLength := congrArg List.length (congrArg Prod.fst hCut)
  have hOwn := congrArg List.length (logicalLine_append line)
  simp only [hLine, List.length_append, List.length_cons] at hLength hOwn
  omega

/-- A line feed behind joined lines ends them, unless the last of them joins what follows. -/
theorem IsJoined.append_newline (h : IsJoined s) (hEnd : ¬ Continues s) (v : Text) :
    logicalLine (s ++ '\n' :: v) = (s, '\n' :: v) := by
  rw [logicalLine_append_newline v hEnd, h]
  rfl

/-- A line feed that is joined does not end the line. -/
theorem logicalLine_append_of_continues (h : IsJoined s) (hJoins : Continues s) (v : Text) :
    logicalLine (s ++ '\n' :: v) = (s ++ '\n' :: (logicalLine v).1, (logicalLine v).2) := by
  rw [IsJoined] at h
  fun_induction logicalLine s with
  | case1 => simp [Continues] at hJoins
  | case2 s ih =>
      have hRest : Continues s := by simpa [continues_cons] using hJoins
      have hJoined : logicalLine s = (s, []) := by simpa [Prod.ext_iff] using h
      simp [logicalLine, ih hJoined hRest]
  | case3 s ih =>
      have hRest : Continues s := by simpa [continues_cons] using hJoins
      have hJoined : logicalLine s = (s, []) := by simpa [Prod.ext_iff] using h
      simp [logicalLine, ih hJoined hRest]
  | case4 s => simp at h
  | case5 c s hFeed hReturn hc ih =>
      have hJoined : logicalLine s = (s, []) := by simpa [Prod.ext_iff] using h
      rcases continues_cons.mp hJoins with hRest | ⟨rfl, rfl | rfl⟩
      · have hEqn : logicalLine (c :: (s ++ '\n' :: v)) =
            (c :: (logicalLine (s ++ '\n' :: v)).1, (logicalLine (s ++ '\n' :: v)).2) := by
          rw [logicalLine]
          · rw [if_neg hc]
          · rintro next rfl hNext
            cases s with
            | nil => simp [Continues] at hRest
            | cons d s =>
                obtain ⟨rfl, _⟩ := List.cons.inj hNext
                exact hFeed s rfl rfl
          · rintro next rfl hNext
            cases s with
            | nil => simp at hNext
            | cons d s =>
                obtain ⟨rfl, hTail⟩ := List.cons.inj hNext
                cases s with
                | nil => simp [Continues, List.suffix_cons_iff] at hRest
                | cons e s =>
                    obtain ⟨rfl, _⟩ := List.cons.inj hTail
                    exact hReturn s rfl rfl
        rw [List.cons_append, hEqn, ih hJoined hRest]
        rfl
      · simp [logicalLine]
      · simp [logicalLine]

/-! ## Joined lines one by one -/

/-- A line that joins what follows, and joined lines behind it, are joined. -/
theorem isJoined_cons_line {line : Text} (hLine : '\n' ∉ line) :
    IsJoined (line ++ '\n' :: s) ↔ Continues line ∧ IsJoined s := by
  have hOwn := isJoined_of_not_mem hLine
  by_cases hJoins : Continues line
  · rw [isJoined_iff_snd, logicalLine_append_of_continues hOwn hJoins, isJoined_iff_snd]
    simp [hJoins]
  · rw [isJoined_iff_snd, hOwn.append_newline hJoins]
    simp [hJoins]

theorem isJoined_join {lines : List Text} (h : ∀ line ∈ lines, '\n' ∉ line) :
    IsJoined (join ['\n'] lines) ↔ ∀ line ∈ lines.dropLast, Continues line := by
  induction lines with
  | nil =>
      constructor
      · intro _ line hLine
        cases hLine
      · intro _
        rfl
  | cons line lines ih =>
      rw [List.forall_mem_cons] at h
      cases lines with
      | nil =>
          constructor
          · intro _ other hOther
            cases hOther
          · intro _
            exact isJoined_of_not_mem h.1
      | cons next lines =>
          rw [join_cons_cons, isJoined_cons_line h.1, ih h.2, List.dropLast_cons_cons,
            List.forall_mem_cons]

/-- All lines are joined to the first one if each but the last joins the next one. -/
theorem isJoined_iff : IsJoined s ↔ ∀ line ∈ (splitOn '\n' s).dropLast, Continues line := by
  have hLines := isJoined_join fun line (hLine : line ∈ splitOn '\n' s) =>
    not_mem_of_mem_splitOn hLine
  rwa [join_splitOn] at hLines

/-- Joined lines stay joined with a text on the first and a text on the last of them. -/
theorem IsJoined.between {front back : Text} (h : IsJoined s) (hFront : '\n' ∉ front)
    (hBack : '\n' ∉ back) : IsJoined (front ++ s ++ back) := by
  rw [isJoined_iff] at h
  have hFirst : ∀ line ∈ (splitOn '\n' (front ++ s)).dropLast, Continues line := by
    obtain ⟨line, lines, hLines⟩ := List.exists_cons_of_ne_nil (splitOn_ne_nil '\n' s)
    have hOwn : splitOn '\n' front = [] ++ [front] := splitOn_of_not_mem hFront
    rw [hLines] at h
    rw [splitOn_append hOwn hLines, List.nil_append]
    cases lines with
    | nil => simp
    | cons next lines =>
        rw [List.dropLast_cons_cons, List.forall_mem_cons] at h ⊢
        exact ⟨h.1.of_suffix (List.suffix_append _ _), h.2⟩
  obtain ⟨lines, last, hLines⟩ := exists_last_splitOn '\n' (front ++ s)
  have hOwn : splitOn '\n' back = [back] := splitOn_of_not_mem hBack
  rw [hLines, List.dropLast_concat] at hFirst
  rw [isJoined_iff, splitOn_append hLines hOwn, List.dropLast_concat]
  exact hFirst

/-- What joins a text of some lines stands on the last of them. -/
theorem Continues.getLast {lines : List Text} (h : Continues (join ['\n'] lines)) :
    ∃ line, lines.getLast? = some line ∧ Continues line := by
  induction lines with
  | nil => exact absurd h (by decide)
  | cons line lines ih =>
      cases lines with
      | nil => exact ⟨line, rfl, h⟩
      | cons next lines =>
          rw [join_cons_cons] at h
          rw [List.getLast?_cons_cons]
          exact ih (h.of_append (by decide))

end Conditional

end ValueNames
