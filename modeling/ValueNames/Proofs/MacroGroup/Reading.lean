import ValueNames.MacroGroup.Definition
import ValueNames.Proofs.Enumeration.Reading

/-!
# How far a macro definition reads

A definition ends where its line does, and the line feed is not part of it. So
it is read in the same way in every piece of the source that holds it and goes
on with a line feed, or ends there.

## Main results

* `exists_taken_of_definitionAt?` — a definition is read off its own text,
  wherever a line ends behind it.
-/

namespace ValueNames.MacroGroup

open Text

/-! ## The parts of a definition -/

/-- The gap before a name is read up to the first character behind the lead. -/
theorem exists_front_of_afterGap? {lead s rest : Text} {mark : Char}
    (hMark : isBlank mark = false) (h : afterGap? lead s = some (mark :: rest)) :
    ∃ front, s = front ++ mark :: rest ∧
      ∀ rest', afterGap? lead (front ++ mark :: rest') = some (mark :: rest') := by
  obtain ⟨front, rfl⟩ := afterGap?_suffix h
  refine ⟨front, rfl, fun rest' => ?_⟩
  simp only [afterGap?, takeWhile_append_mark _ _ hMark, dropWhile_append_mark _ _ hMark] at h ⊢
  split at h
  · rename_i hGap
    rw [if_pos hGap]
    have hLead := List.append_cancel_right (stripLead?_eq_some_iff.mp h)
    rw [hLead]
    exact stripLead?_eq_some_iff.mpr rfl
  · cases h

/-- A name and the gap behind it are read up to the first character of the value. -/
theorem exists_front_of_wordAndGap? {s word rest : Text} {mark : Char}
    (hMark : isBlank mark = false) (h : wordAndGap? s = some (word, mark :: rest)) :
    ∃ first front, s = first :: front ++ mark :: rest ∧ isBlank first = false ∧
      ∀ rest', wordAndGap? (first :: front ++ mark :: rest') = some (word, mark :: rest') := by
  unfold wordAndGap? at h
  split at h
  · cases h
  · cases h
  · rename_i c tail hTail hSome
    split at h
    · rename_i hBlank
      simp only [Option.some.injEq, Prod.mk.injEq] at h
      obtain ⟨hWord, hGap⟩ := h
      cases word with
      | nil => exact absurd hWord hSome
      | cons first word =>
          have hAll : ∀ d ∈ first :: word, isWord d = true := by
            rw [← hWord]
            exact List.all_eq_true.mp List.all_takeWhile
          have hEnd : isWord c = false := by
            cases hIs : isWord c with
            | false => rfl
            | true => rw [not_isBlank_of_isWord hIs] at hBlank; cases hBlank
          have hBlanks : ∀ d ∈ tail.takeWhile isBlank, isBlank d = true :=
            List.all_eq_true.mp List.all_takeWhile
          have hSplit : s = first :: word ++ c :: (tail.takeWhile isBlank ++ mark :: rest) := by
            rw [← hGap, trimStart, List.takeWhile_append_dropWhile, ← hTail, ← hWord,
              List.takeWhile_append_dropWhile]
          refine ⟨first, word ++ c :: tail.takeWhile isBlank, ?_,
            not_isBlank_of_isWord (hAll first (by simp)), fun rest' => ?_⟩
          · rw [hSplit]
            simp
          · have hText : first :: (word ++ c :: tail.takeWhile isBlank) ++ mark :: rest' =
                (first :: word) ++ c :: (tail.takeWhile isBlank ++ mark :: rest') := by
              simp
            have hTrim : trimStart (tail.takeWhile isBlank ++ mark :: rest') = mark :: rest' := by
              rw [trimStart, List.dropWhile_append_of_pos hBlanks,
                List.dropWhile_cons_of_neg (by simp [hMark])]
            rw [hText, wordAndGap?, List.takeWhile_append_of_pos hAll,
              List.dropWhile_append_of_pos hAll, List.takeWhile_cons_of_neg (by simp [hEnd]),
              List.dropWhile_cons_of_neg (by simp [hEnd])]
            simp [hBlank, hTrim]
    · cases h

/-- A number is read as long as no digit follows it. -/
theorem exists_digits_of_hexNumber? {s value rest : Text}
    (h : hexNumber? s = some (value, rest)) :
    ∃ digits, value = '0' :: digits ∧ s = value ++ rest ∧ '\n' ∉ value ∧
      ∀ rest', rest'.head?.any isHexDigit = false →
        hexNumber? (value ++ rest') = some (value, rest') := by
  unfold hexNumber? at h
  split at h
  · rename_i x tail
    split at h
    · rename_i hForm
      simp only [Option.some.injEq, Prod.mk.injEq] at h
      obtain ⟨rfl, rfl⟩ := h
      obtain ⟨hMark, hSome⟩ := hForm
      have hDigits : ∀ d ∈ tail.takeWhile isHexDigit, isHexDigit d = true :=
        List.all_eq_true.mp List.all_takeWhile
      refine ⟨x :: tail.takeWhile isHexDigit, rfl, ?_, ?_, ?_⟩
      · simp [List.takeWhile_append_dropWhile]
      · intro hMem
        simp only [List.mem_cons] at hMem
        rcases hMem with hZero | hLetter | hDigit
        · cases hZero
        · subst hLetter
          simp at hMark
        · have hIs := hDigits _ hDigit
          revert hIs
          decide
      · intro rest' hRest'
        have hNone : rest'.takeWhile isHexDigit = [] ∧ rest'.dropWhile isHexDigit = rest' := by
          cases rest' with
          | nil => exact ⟨rfl, rfl⟩
          | cons d rest' =>
              have hd : ¬ isHexDigit d = true := by simpa using hRest'
              exact ⟨List.takeWhile_cons_of_neg hd, List.dropWhile_cons_of_neg hd⟩
        simp only [List.cons_append, hexNumber?, List.takeWhile_append_of_pos hDigits,
          List.dropWhile_append_of_pos hDigits, hNone, List.append_nil]
        rw [if_pos ⟨hMark, hSome⟩]
    · cases h
  · cases h

/-- Spaces, tabs and one carriage return are read up to the end of a line. -/
theorem lineEnd?_append {spaces ret rest : Text} (hSpaces : ∀ c ∈ spaces, isSpaceOrTab c = true)
    (hRet : ret = [] ∨ ret = ['\r']) (hRest : rest = [] ∨ ∃ next, rest = '\n' :: next) :
    lineEnd? (spaces ++ (ret ++ rest)) = some rest := by
  have hDrop : (spaces ++ (ret ++ rest)).dropWhile isSpaceOrTab = ret ++ rest := by
    rw [List.dropWhile_append_of_pos hSpaces]
    rcases hRet with rfl | rfl
    · rcases hRest with rfl | ⟨next, rfl⟩
      · rfl
      · rfl
    · rfl
  have hReturn : dropLeadingReturn (ret ++ rest) = rest := by
    rcases hRet with rfl | rfl
    · rcases hRest with rfl | ⟨next, rfl⟩
      · rfl
      · rfl
    · rfl
  rw [lineEnd?, hDrop, hReturn]
  rcases hRest with rfl | ⟨next, rfl⟩
  · rfl
  · rfl

/-- Behind a value only blanks of its line are read. -/
theorem exists_blanks_of_lineEnd? {s rest : Text} (h : lineEnd? s = some rest) :
    ∃ blanks, s = blanks ++ rest ∧ (rest = [] ∨ ∃ next, rest = '\n' :: next) ∧
      (∀ c ∈ blanks, isHexDigit c = false ∧ c ≠ '\n') ∧
      ∀ rest', (rest' = [] ∨ ∃ next, rest' = '\n' :: next) →
        lineEnd? (blanks ++ rest') = some rest' := by
  obtain ⟨hReturn, hRest⟩ : dropLeadingReturn (s.dropWhile isSpaceOrTab) = rest ∧
      (rest = [] ∨ ∃ next, rest = '\n' :: next) := by
    unfold lineEnd? at h
    split at h
    · rename_i hNone
      cases h
      exact ⟨hNone, .inl rfl⟩
    · rename_i c tail hTail
      split at h
      · rename_i hFeed
        cases h
        exact ⟨hTail, .inr ⟨tail, by rw [hFeed]⟩⟩
      · cases h
  obtain ⟨ret, hRet, hDrop⟩ : ∃ ret, (ret = [] ∨ ret = ['\r']) ∧
      s.dropWhile isSpaceOrTab = ret ++ rest := by
    unfold dropLeadingReturn at hReturn
    split at hReturn
    · rename_i tail hTail
      exact ⟨['\r'], .inr rfl, by rw [hTail, hReturn]; rfl⟩
    · exact ⟨[], .inl rfl, hReturn⟩
  have hSpaces : ∀ c ∈ s.takeWhile isSpaceOrTab, isSpaceOrTab c = true :=
    List.all_eq_true.mp List.all_takeWhile
  refine ⟨s.takeWhile isSpaceOrTab ++ ret, ?_, hRest, ?_, ?_⟩
  · rw [List.append_assoc, ← hDrop, List.takeWhile_append_dropWhile]
  · intro c hc
    rcases List.mem_append.mp hc with hSpace | hLast
    · rcases isSpaceOrTab_iff.mp (hSpaces c hSpace) with rfl | rfl <;> decide
    · rcases hRet with rfl | rfl
      · cases hLast
      · obtain rfl := List.mem_singleton.mp hLast
        decide
  · intro rest' hRest'
    rw [List.append_assoc]
    exact lineEnd?_append hSpaces hRet hRest'

/-- The last character of a text is in the last part of it. -/
theorem mem_of_append_eq_concat {front back line : Text} {c : Char} (hBack : back ≠ [])
    (h : front ++ back = line ++ [c]) : c ∈ back := by
  rcases List.append_eq_append_iff.mp h with ⟨gap, _, rfl⟩ | ⟨gap, _, hGap⟩
  · simp
  · cases gap with
    | nil =>
        rw [List.nil_append] at hGap
        simp [← hGap]
    | cons d gap =>
        have hLength := congrArg List.length hGap
        have hPos := List.length_pos_iff.mpr hBack
        simp only [List.cons_append, List.length_cons, List.length_append, List.length_nil]
          at hLength
        omega

/-! ## Reading a definition -/

/--
A definition is read off its own text, wherever a line ends behind it. It begins
with its mark and does not end with a line feed.
-/
theorem exists_taken_of_definitionAt? {lead s rest : Text} {found : Text × Text}
    (h : definitionAt? lead s = some (found, rest)) :
    ∃ taken, s = taken ++ rest ∧ (∃ tail, taken = '#' :: tail) ∧ (∀ line, taken ≠ line ++ ['\n']) ∧
      (rest = [] ∨ ∃ next, rest = '\n' :: next) ∧
      ∀ rest', (rest' = [] ∨ ∃ next, rest' = '\n' :: next) →
        definitionAt? lead (taken ++ rest') = some (found, rest') := by
  obtain ⟨afterWord, hWord, h⟩ := Option.bind_eq_some_iff.mp h
  obtain ⟨afterLead, hLead, h⟩ := Option.bind_eq_some_iff.mp h
  obtain ⟨⟨word, beforeValue⟩, hName, h⟩ := Option.bind_eq_some_iff.mp h
  obtain ⟨⟨value, afterValue⟩, hValue, h⟩ := Option.bind_eq_some_iff.mp h
  obtain ⟨last, hEnd, h⟩ := Option.map_eq_some_iff.mp h
  obtain ⟨rfl, rfl⟩ := Prod.mk.inj h
  obtain ⟨blanks, rfl, hRest, hBlanks, hEndAgain⟩ := exists_blanks_of_lineEnd? hEnd
  obtain ⟨digits, rfl, rfl, hFeed, hValueAgain⟩ := exists_digits_of_hexNumber? hValue
  obtain ⟨first, gap, rfl, hFirst, hNameAgain⟩ :=
    exists_front_of_wordAndGap? (by decide : isBlank '0' = false) hName
  obtain ⟨front, rfl, hLeadAgain⟩ := exists_front_of_afterGap? hFirst hLead
  obtain rfl := stripLead?_eq_some_iff.mp hWord
  refine ⟨"#define".toList ++ (front ++ (first :: gap ++ ('0' :: digits ++ blanks))), by simp,
    ⟨_, rfl⟩, ?_, hRest, ?_⟩
  · intro line hLine
    have hNoFeed : '\n' ∉ '0' :: digits ++ blanks := by
      intro hMem
      rcases List.mem_append.mp hMem with hMem | hMem
      · exact hFeed hMem
      · exact (hBlanks _ hMem).2 rfl
    have hEnds : ("#define".toList ++ (front ++ first :: gap)) ++ ('0' :: digits ++ blanks) =
        line ++ ['\n'] := by
      rw [← hLine]
      simp
    exact hNoFeed (mem_of_append_eq_concat (by simp) hEnds)
  · intro rest' hRest'
    have hNoDigit : (blanks ++ rest').head?.any isHexDigit = false := by
      cases blanks with
      | nil =>
          rcases hRest' with rfl | ⟨next, rfl⟩
          · rfl
          · rfl
      | cons c blanks => simpa using (hBlanks c (by simp)).1
    have hText : "#define".toList ++ (front ++ (first :: gap ++ ('0' :: digits ++ blanks))) ++
        rest' = "#define".toList ++ (front ++ first :: (gap ++ '0' :: (digits ++
          (blanks ++ rest')))) := by simp
    have hWord' : stripLead? "#define".toList ("#define".toList ++ (front ++ first :: (gap ++
        '0' :: (digits ++ (blanks ++ rest'))))) = some (front ++ first :: (gap ++
          '0' :: (digits ++ (blanks ++ rest')))) :=
      stripLead?_eq_some_iff.mpr rfl
    have hLead' := hLeadAgain (gap ++ '0' :: (digits ++ (blanks ++ rest')))
    have hName' := hNameAgain (digits ++ (blanks ++ rest'))
    have hValue' := hValueAgain (blanks ++ rest') hNoDigit
    have hEnd' := hEndAgain rest' hRest'
    simp only [List.cons_append] at hName' hValue'
    rw [hText]
    simp only [definitionAt?, hWord', hLead', hName', hValue', hEnd', Option.bind_some,
      Option.map_some]

end ValueNames.MacroGroup
