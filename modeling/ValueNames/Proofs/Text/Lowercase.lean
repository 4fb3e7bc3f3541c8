import Mathlib.Data.List.Pairwise
import ValueNames.Text.Lowercase

/-!
# The lower case of a text

Unicode gives the lower case of a text character by character. One character depends on its
place: the capital sigma becomes the final sigma where it ends a word, which is where a cased
character comes before it and none comes after it, ignorable characters not counting. This
module states these rules one by one, and that they leave no choice.

## Main results

* `LowersTo.eq_lowerIn` — every character has one lower case at its place.
* `isLowercase_iff` — every text has one lower case, and `lowercase` computes it.
-/

namespace ValueNames.Text

/-! ## The rules -/

/-- A text begins with a cased character, ignorable ones not counting. -/
def BeginsCased (s : Text) : Prop :=
  ∃ ignored c rest, s = ignored ++ c :: rest ∧
    (∀ d ∈ ignored, inRanges caseIgnorableRanges d = true) ∧
    inRanges caseIgnorableRanges c = false ∧ inRanges casedRanges c = true

/-- The lower case of a character of a text, between the pieces before and behind it. -/
inductive LowersTo (front back : Text) : Char → Text → Prop
  | ascii {c : Char} (h : c.toNat < 128) : LowersTo front back c [c.toLower]
  | dotted : LowersTo front back 'İ' ['i', '\u0307']
  | final (hBefore : BeginsCased front.reverse) (hAfter : ¬ BeginsCased back) :
      LowersTo front back 'Σ' ['ς']
  | sigma (h : ¬ (BeginsCased front.reverse ∧ ¬ BeginsCased back)) : LowersTo front back 'Σ' ['σ']
  | letter {c : Char} {run : CaseRun} (hRun : run ∈ caseRuns) (hHolds : run.holds c.toNat = true)
      (hSigma : c ≠ 'Σ') : LowersTo front back c [Char.ofNat (c.toNat + run.shift).toNat]
  | other {c : Char} (hAscii : 128 ≤ c.toNat) (hDotted : c ≠ 'İ')
      (hNone : ∀ run ∈ caseRuns, run.holds c.toNat = false) : LowersTo front back c [c]

/-- A text is the lower case of another one: that of each of its characters, put together. -/
def IsLowercase (s lower : Text) : Prop :=
  ∃ pieces : List Text, pieces.flatten = lower ∧ pieces.length = s.length ∧
    ∀ front c back, s = front ++ c :: back →
      ∃ piece, pieces[front.length]? = some piece ∧ LowersTo front back c piece

/-! ## One character -/

theorem meetsCased_iff (s : Text) : meetsCased s = true ↔ BeginsCased s := by
  unfold meetsCased
  constructor
  · intro h
    split at h
    · rename_i c rest hRest
      refine ⟨s.takeWhile (inRanges caseIgnorableRanges), c, rest, ?_, ?_, ?_, h⟩
      · rw [← hRest, List.takeWhile_append_dropWhile]
      · exact List.all_eq_true.mp List.all_takeWhile
      · have hFirst := List.head?_dropWhile_not (inRanges caseIgnorableRanges) s
        rw [hRest] at hFirst
        simpa using hFirst
    · cases h
  · rintro ⟨ignored, c, rest, rfl, hIgnored, hc, hCased⟩
    rw [List.dropWhile_append_of_pos hIgnored, List.dropWhile_cons_of_neg (by simp [hc])]
    exact hCased

/-- The lower case of a character at a place, with the text before it given backwards. -/
def lowerIn (before after : Text) (c : Char) : Text :=
  if c = 'Σ' then [if endsWord before after then 'ς' else 'σ'] else lowerChar c

theorem endsWord_iff (front back : Text) :
    endsWord front.reverse back = true ↔ BeginsCased front.reverse ∧ ¬ BeginsCased back := by
  rw [endsWord, Bool.and_eq_true, meetsCased_iff, Bool.not_eq_true', ← meetsCased_iff back,
    Bool.not_eq_true]

/-- The runs of capitals stand one behind the other. -/
theorem pairwise_caseRuns : caseRuns.Pairwise fun run other => run.last < other.first := by
  decide +kernel

theorem CaseRun.le_of_holds {run : CaseRun} {n : Nat} (h : run.holds n = true) :
    run.first ≤ n ∧ n ≤ run.last := by
  simp only [holds, Bool.and_eq_true, decide_eq_true_eq] at h
  exact h.1

/-- No two runs of capitals hold one code point. -/
theorem eq_of_holds {run other : CaseRun} (hRun : run ∈ caseRuns) (hOther : other ∈ caseRuns)
    {n : Nat} (hHolds : run.holds n = true) (hOtherHolds : other.holds n = true) :
    run = other := by
  have hApart : caseRuns.Pairwise fun run other =>
      run.holds n = true → other.holds n = true → run = other := by
    refine pairwise_caseRuns.imp fun {run other} hLess hRun hOther => ?_
    have hEnd := (CaseRun.le_of_holds hRun).2
    have hStart := (CaseRun.le_of_holds hOther).1
    omega
  have hBack := hApart.imp fun h hOther hRun => (h hRun hOther).symm
  exact hApart.forall_of_forall_of_flip (fun _ _ _ _ => rfl) hBack hRun hOther hHolds hOtherHolds

theorem find?_caseRuns {run : CaseRun} (hRun : run ∈ caseRuns) {n : Nat}
    (hHolds : run.holds n = true) : caseRuns.find? (·.holds n) = some run := by
  have hSome : (caseRuns.find? (·.holds n)).isSome = true :=
    List.find?_isSome.mpr ⟨run, hRun, hHolds⟩
  obtain ⟨other, hOther⟩ := Option.isSome_iff_exists.mp hSome
  have hOtherHolds : other.holds n = true := by simpa using List.find?_some hOther
  rw [hOther, eq_of_holds hRun (List.mem_of_find?_eq_some hOther) hHolds hOtherHolds]

/-- The runs hold no ASCII character and not the dotted capital I. -/
theorem le_first_of_mem_caseRuns :
    ∀ run ∈ caseRuns, 128 ≤ run.first ∧ run.holds 'İ'.toNat = false := by
  decide +kernel

/-- Every character has one lower case at its place. -/
theorem LowersTo.eq_lowerIn {front back : Text} {c : Char} {piece : Text}
    (h : LowersTo front back c piece) : piece = lowerIn front.reverse back c := by
  cases h with
  | ascii hAscii =>
      have hSigma : c ≠ 'Σ' := by
        rintro rfl
        exact absurd hAscii (by decide)
      rw [lowerIn, if_neg hSigma, lowerChar, if_pos hAscii]
  | dotted => rfl
  | final hBefore hAfter =>
      rw [lowerIn, if_pos rfl, if_pos ((endsWord_iff front back).mpr ⟨hBefore, hAfter⟩)]
  | sigma hWord => rw [lowerIn, if_pos rfl, if_neg ((endsWord_iff front back).not.mpr hWord)]
  | @letter _ run hRun hHolds hSigma =>
      obtain ⟨hFirst, hOwn⟩ := le_first_of_mem_caseRuns run hRun
      have hAscii : ¬ c.toNat < 128 := by
        have hStart := (CaseRun.le_of_holds hHolds).1
        omega
      have hDotted : c ≠ 'İ' := by
        rintro rfl
        rw [hOwn] at hHolds
        cases hHolds
      rw [lowerIn, if_neg hSigma, lowerChar, if_neg hAscii, if_neg hDotted,
        find?_caseRuns hRun hHolds]
  | other hAscii hDotted hNone =>
      have hSigma : c ≠ 'Σ' := by
        rintro rfl
        have hCapital : ∃ run ∈ caseRuns, run.holds 'Σ'.toNat = true := by decide +kernel
        obtain ⟨run, hRun, hHolds⟩ := hCapital
        rw [hNone run hRun] at hHolds
        cases hHolds
      have hFind : caseRuns.find? (·.holds c.toNat) = none := by
        rw [List.find?_eq_none]
        intro run hRun
        simp [hNone run hRun]
      rw [lowerIn, if_neg hSigma, lowerChar, if_neg (by omega), if_neg hDotted, hFind]

/-- A rule applies to every character. -/
theorem lowersTo_lowerIn (front back : Text) (c : Char) :
    LowersTo front back c (lowerIn front.reverse back c) := by
  by_cases hSigma : c = 'Σ'
  · subst hSigma
    rw [lowerIn, if_pos rfl]
    by_cases hWord : endsWord front.reverse back = true
    · have hEnds := (endsWord_iff front back).mp hWord
      rw [if_pos hWord]
      exact .final hEnds.1 hEnds.2
    · rw [if_neg hWord]
      exact .sigma ((endsWord_iff front back).not.mp hWord)
  rw [lowerIn, if_neg hSigma, lowerChar]
  split
  · rename_i hAscii
    exact .ascii hAscii
  split
  · rename_i hDotted
    subst hDotted
    exact .dotted
  rename_i hAscii hDotted
  split
  · rename_i run hFind
    have hHolds : run.holds c.toNat = true := by simpa using List.find?_some hFind
    exact .letter (List.mem_of_find?_eq_some hFind) hHolds hSigma
  · rename_i hFind
    refine .other (Nat.le_of_not_lt hAscii) hDotted fun run hRun => ?_
    have hNot := List.find?_eq_none.mp hFind run hRun
    simpa using hNot

/-! ## Whole texts -/

/-- The lower cases of the characters of a text that follows `before`, which is given backwards. -/
def lowerPieces (before : Text) : Text → List Text
  | [] => []
  | c :: s => lowerIn before s c :: lowerPieces (c :: before) s

theorem flatten_lowerPieces (before s : Text) :
    (lowerPieces before s).flatten = lowerAfter before s := by
  induction s generalizing before with
  | nil => rfl
  | cons c s ih =>
      rw [lowerPieces, List.flatten_cons, ih]
      rfl

theorem length_lowerPieces (before s : Text) : (lowerPieces before s).length = s.length := by
  induction s generalizing before with
  | nil => rfl
  | cons c s ih => rw [lowerPieces, List.length_cons, ih, List.length_cons]

theorem getElem?_lowerPieces (before front back : Text) (c : Char) :
    (lowerPieces before (front ++ c :: back))[front.length]? =
      some (lowerIn (front.reverse ++ before) back c) := by
  induction front generalizing before with
  | nil => rfl
  | cons d front ih =>
      rw [List.cons_append, lowerPieces, List.length_cons, List.getElem?_cons_succ, ih,
        List.reverse_cons, List.append_assoc, List.singleton_append]

/-- Every text has one lower case. -/
theorem isLowercase_iff {s lower : Text} : IsLowercase s lower ↔ lower = lowercase s := by
  constructor
  · rintro ⟨pieces, rfl, hLength, hPieces⟩
    have hSame : pieces = lowerPieces [] s := by
      refine List.ext_getElem? fun i => ?_
      by_cases hi : i < s.length
      · have hSplit : s = s.take i ++ s[i] :: s.drop (i + 1) := by
          rw [← List.drop_eq_getElem_cons hi, List.take_append_drop]
        have hPlace : (s.take i).length = i := List.length_take_of_le (Nat.le_of_lt hi)
        obtain ⟨piece, hPiece, hLowers⟩ := hPieces _ _ _ hSplit
        have hOwn := getElem?_lowerPieces [] (s.take i) (s.drop (i + 1)) s[i]
        rw [← hSplit, hPlace, List.append_nil] at hOwn
        rw [hPlace] at hPiece
        rw [hPiece, hOwn, hLowers.eq_lowerIn]
      · rw [List.getElem?_eq_none (by omega),
          List.getElem?_eq_none (by rw [length_lowerPieces]; omega)]
    rw [hSame, flatten_lowerPieces]
    rfl
  · rintro rfl
    refine ⟨lowerPieces [] s, flatten_lowerPieces [] s, length_lowerPieces [] s, ?_⟩
    rintro front c back rfl
    refine ⟨_, getElem?_lowerPieces [] front back c, ?_⟩
    rw [List.append_nil]
    exact lowersTo_lowerIn front back c

end ValueNames.Text
