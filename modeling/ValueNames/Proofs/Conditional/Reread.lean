import ValueNames.Proofs.Conditional.Forest
import ValueNames.Proofs.Conditional.Joined

/-!
# Guards read as directive lines

The guard lines of a generated file are directive lines again. The condition of a guard was
read off a directive line, and an `#else` may have negated it. So its lines are joined, and
there are no blanks at its ends. Its opening line is read back unless the condition ends with
a backslash, which trimming can uncover: then the line behind it is joined.

## Main results

* `Forest.Reads.guard_of_mem_scopes` — what complements keep holds of all guards of a forest.
* `Forest.IsOf.isCondition` — the guards of a source have conditions as described above.
* `Guard.readsBack_iff`, `Guard.lineAt?_opening_of_joins` — how an opening line is read.
* `Guard.exists_lineAt?_closing` — a closing line is always read back.
-/

namespace ValueNames

open Text

/-! ## Conditions -/

namespace Conditional

/-- A text whose lines are joined, without blanks at its ends. -/
structure IsCondition (s : Text) : Prop where
  head : ∀ c ∈ s.head?, isSpaceOrTab c = false
  trimEnd_eq : trimEnd s = s
  joined : IsJoined s

/-- Such is the condition of a directive line. -/
theorem isCondition_of_lineAt? {offset : Nat} {s rest : Text} {line : DirectiveLine}
    (h : lineAt? offset s = some (line, rest)) : IsCondition line.condition := by
  obtain ⟨_, _, _, behind, _, _, _, _, hCondition, _, _⟩ := lineAt?_eq_some_iff.mp h
  obtain ⟨gap, hGap, _⟩ := exists_gap_trimEnd (logicalLine (behind.dropWhile isSpaceOrTab)).1
  rw [← hCondition] at hGap
  have hBoth := logicalLine_append (behind.dropWhile isSpaceOrTab)
  rw [hGap, List.append_assoc] at hBoth
  refine ⟨?_, ?_, ?_⟩
  · intro c hc
    have hFirst := List.head?_dropWhile_not isSpaceOrTab behind
    rw [← hBoth, List.head?_append, Option.mem_def.mp hc] at hFirst
    simpa using hFirst
  · rw [hCondition, trimEnd_trimEnd]
  · have hJoined := isJoined_logicalLine (behind.dropWhile isSpaceOrTab)
    rw [hGap] at hJoined
    exact hJoined.of_prefix (List.prefix_append _ _)

/-- Such is its negation. -/
theorem IsCondition.complement {guard : Guard} (h : IsCondition guard.condition) :
    IsCondition guard.complement.condition := by
  obtain ⟨opener, condition⟩ := guard
  cases opener with
  | defined => exact h
  | undefined => exact h
  | expression =>
      refine ⟨?_, ?_, ?_⟩
      · intro c hc
        obtain rfl : '!' = c := by simpa [Guard.complement] using hc
        decide
      · have hEnd : trimEnd " )".toList ≠ [] := by decide
        exact trimEnd_append_of_ne_nil hEnd _
      · exact h.joined.between (by decide) (by decide)

end Conditional

open Conditional

/-! ## Guard lines -/

namespace Guard

variable {guard : Guard}

/-- The opening line of a guard is read as itself, whatever stands behind its line feed. -/
def ReadsBack (guard : Guard) : Prop :=
  ∀ next, lineAt? 0 (guard.opening ++ '\n' :: next) =
    some (⟨.opens guard.opener, guard.condition, ⟨0, size guard.opening⟩⟩, '\n' :: next)

/-- An opening line goes on as far as its condition does as a logical line. -/
theorem lineAt?_opening (h : IsCondition guard.condition) {next text rest : Text}
    (hLogical : logicalLine (guard.condition ++ '\n' :: next) = (text, rest)) :
    lineAt? 0 (guard.opening ++ '\n' :: next) =
      some (⟨.opens guard.opener, trimEnd text,
        ⟨0, size (opening ⟨guard.opener, text⟩)⟩⟩, rest) := by
  have hNone : ∀ c ∈ ([] : Text), isSpaceOrTab c = true := by simp
  have hLead : (Directive.opens guard.opener).IsLead (guard.opener.word ++ [' ']) :=
    ⟨' ', by decide, rfl⟩
  have hRead := lineAt?_written hNone hLead hNone h.head hLogical
  simpa [opening] using hRead

/-- An opening line ends with a backslash if the condition does. -/
theorem getLast?_opening_eq_backslash_iff :
    guard.opening.getLast? = some '\\' ↔ guard.condition.getLast? = some '\\' := by
  rw [opening, List.getLast?_append, List.getLast?_cons, Option.some_or, Option.some.injEq]
  cases guard.condition.getLast? with
  | none => simp
  | some c => simp

/-- To an opening line that ends with a backslash the line behind it is joined. -/
theorem lineAt?_opening_of_joins (h : IsCondition guard.condition)
    (hLast : guard.opening.getLast? = some '\\') (next : Text) :
    lineAt? 0 (guard.opening ++ '\n' :: next) =
      some (⟨.opens guard.opener, trimEnd (guard.condition ++ '\n' :: (logicalLine next).1),
        ⟨0, size (guard.opening ++ '\n' :: (logicalLine next).1)⟩⟩, (logicalLine next).2) := by
  rw [getLast?_opening_eq_backslash_iff] at hLast
  have hJoins : Continues guard.condition := (continues_iff_of_trimEnd_eq h.trimEnd_eq).mpr hLast
  rw [lineAt?_opening h (logicalLine_append_of_continues h.joined hJoins next)]
  simp [opening]

/-- An opening line is read back exactly if it does not end with a backslash. -/
theorem readsBack_iff (h : IsCondition guard.condition) :
    guard.ReadsBack ↔ guard.opening.getLast? ≠ some '\\' := by
  constructor
  · intro hReads hLast
    have hSame := (hReads []).symm.trans (lineAt?_opening_of_joins h hLast [])
    have hRest : ['\n'] = (logicalLine []).2 := congrArg Prod.snd (Option.some.inj hSame)
    cases hRest
  · intro hLast next
    rw [Ne, getLast?_opening_eq_backslash_iff] at hLast
    have hEnd : ¬ Continues guard.condition :=
      (continues_iff_of_trimEnd_eq h.trimEnd_eq).not.mpr hLast
    rw [lineAt?_opening h (h.joined.append_newline hEnd next), h.trimEnd_eq]

/-- A closing line has the condition in a comment. -/
theorem exists_closing_eq (h : IsCondition guard.condition) :
    ∃ note, IsJoined note ∧
      guard.closing = "#endif ".toList ++ ("/* ".toList ++ note ++ " */".toList) := by
  have hFront : ∀ note, "#endif ".toList ++ ("/* ".toList ++ note ++ " */".toList) =
      "#endif /* ".toList ++ note ++ " */".toList := fun _ => rfl
  obtain ⟨opener, condition⟩ := guard
  cases opener with
  | expression => exact ⟨condition, h.joined, rfl⟩
  | defined =>
      exact ⟨"defined(".toList ++ condition ++ ")".toList,
        h.joined.between (by decide) (by decide), rfl⟩
  | undefined =>
      exact ⟨"!defined(".toList ++ condition ++ ")".toList,
        h.joined.between (by decide) (by decide), rfl⟩

/-- A closing line is read as itself: its comment ends with a slash. -/
theorem exists_lineAt?_closing (h : IsCondition guard.condition) :
    ∃ comment, guard.closing = "#endif ".toList ++ comment ∧
      ∀ next, lineAt? 0 (guard.closing ++ '\n' :: next) =
        some (⟨.closes .final, comment, ⟨0, size guard.closing⟩⟩, '\n' :: next) := by
  obtain ⟨note, hNote, hClosing⟩ := exists_closing_eq h
  refine ⟨_, hClosing, fun next => ?_⟩
  have hJoined : IsJoined ("/* ".toList ++ note ++ " */".toList) :=
    hNote.between (by decide) (by decide)
  have hLast : trimEnd " */".toList ≠ [] := by decide
  have hTrim : trimEnd ("/* ".toList ++ note ++ " */".toList) =
      "/* ".toList ++ note ++ " */".toList := trimEnd_append_of_ne_nil hLast _
  have hEnd : ¬ Continues ("/* ".toList ++ note ++ " */".toList) := by
    have hSlash : " */".toList.getLast? = some '/' := rfl
    rw [continues_iff_of_trimEnd_eq hTrim, List.getLast?_append, hSlash, Option.some_or]
    decide
  have hNone : ∀ c ∈ ([] : Text), isSpaceOrTab c = true := by simp
  have hSpace : ∀ c ∈ [' '], isSpaceOrTab c = true := List.forall_mem_singleton.mpr rfl
  have hHead : ∀ c ∈ ("/* ".toList ++ note ++ " */".toList).head?, isSpaceOrTab c = false := by
    intro c hc
    obtain rfl : '/' = c := Option.some.inj hc
    decide
  have hLead : (Directive.closes .final).IsLead "endif".toList := rfl
  have hRead := lineAt?_written hNone hLead hSpace hHead (hJoined.append_newline hEnd next)
  rw [hTrim] at hRead
  rw [hClosing]
  exact hRead

end Guard

/-! ## The guards of a source -/

namespace Forest

/-- What holds of the opening lines and is kept by complements holds of all guards. -/
theorem Reads.guard_of_mem_scopes {P : Guard → Prop}
    (hComplement : ∀ guard, P guard → P guard.complement) {first : Option Block}
    {lines rest : List DirectiveLine} {forest : Forest} (h : Reads first lines forest rest)
    (hFirst : ∀ block ∈ first, P block.guard)
    (hLines : ∀ line ∈ lines, ∀ opener, line.directive = .opens opener →
      P ⟨opener, line.condition⟩) :
    ∀ scope ∈ forest.scopes, P scope.block.guard := by
  induction h with
  | stop _ => simp [scopes]
  | @opens line lines rest forest opener hOpens _ ih =>
      apply ih
      · simpa using hLines line List.mem_cons_self opener hOpens
      · exact fun other hOther => hLines other (List.mem_cons_of_mem line hOther)
  | @closes block lines between rest line inside after closer hInside _ _ ihInside ihAfter =>
      have hBetween : ∀ other ∈ between, ∀ opener, other.directive = .opens opener →
          P ⟨opener, other.condition⟩ := fun other hOther =>
        hLines other (hInside.suffix.subset (List.mem_cons_of_mem line hOther))
      have hOwn : P block.guard := hFirst block rfl
      -- The branch behind an alternative has the complement, and behind the end there is none.
      have hNext : ∀ next ∈ closer.next line.span block, P next.guard := by
        intro next hNext
        cases closer with
        | alternative =>
            cases hNext
            exact hComplement _ hOwn
        | final => cases hNext
      intro scope hScope
      simp only [scopes, List.mem_cons, List.mem_append] at hScope
      rcases hScope with rfl | hScope | hScope
      · exact hOwn
      · exact ihInside (by simp) hLines scope hScope
      · exact ihAfter hNext hBetween scope hScope

variable {source : Text} {forest : Forest}

/-- The guards of a source have the conditions of its directive lines, or their negations. -/
theorem IsOf.isCondition (h : IsOf (directiveLines source) forest) :
    ∀ scope ∈ forest.scopes, IsCondition scope.block.guard.condition := by
  have hComplement : ∀ guard : Guard,
      IsCondition guard.condition → IsCondition guard.complement.condition :=
    fun _ hGuard => hGuard.complement
  refine Reads.guard_of_mem_scopes hComplement h (by simp) ?_
  intro line hLine opener _
  obtain ⟨_, _, _, _, _, hRead⟩ := exists_lineAt?_of_mem_directiveLines hLine
  exact isCondition_of_lineAt? hRead

/-- A guard ends with a backslash only if a directive line of the source has such a condition. -/
theorem IsOf.exists_line_of_getLast? (h : IsOf (directiveLines source) forest) {scope : Scope}
    (hScope : scope ∈ forest.scopes) (hLast : scope.block.guard.opening.getLast? = some '\\') :
    ∃ line ∈ directiveLines source, line.condition.getLast? = some '\\' := by
  have hComplement : ∀ guard : Guard,
      (guard.condition.getLast? = some '\\' →
        ∃ line ∈ directiveLines source, line.condition.getLast? = some '\\') →
      guard.complement.condition.getLast? = some '\\' →
        ∃ line ∈ directiveLines source, line.condition.getLast? = some '\\' := by
    rintro ⟨opener, condition⟩ hOwn hEnd
    cases opener with
    | defined => exact hOwn hEnd
    | undefined => exact hOwn hEnd
    | expression =>
        have hParenthesis : " )".toList.getLast? = some ')' := rfl
        replace hEnd : ("!( ".toList ++ condition ++ " )".toList).getLast? = some '\\' := hEnd
        rw [List.getLast?_append, hParenthesis, Option.some_or] at hEnd
        exact absurd hEnd (by decide)
  exact Reads.guard_of_mem_scopes hComplement h (by simp)
    (fun line hLine _ _ hEnd => ⟨line, hLine, hEnd⟩) scope hScope
    (Guard.getLast?_opening_eq_backslash_iff.mp hLast)

end Forest

end ValueNames
