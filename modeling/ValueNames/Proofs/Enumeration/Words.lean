import Mathlib.Data.List.TakeWhile
import ValueNames.Conditional.Line
import ValueNames.Enumeration.Basic
import ValueNames.Proofs.Text.Pieces

/-!
# The words of a body

A body without a hash sign is read word by word: each line, and on it each field between
commas, gives its first word. So a word is read whatever stands behind it up to the end of
its line, and the next line is read as if the body began there.

## Main results

* `entries_eq` — a body without a hash sign gives the first words of its fields.
* `words_append_comma` — at a comma a body falls into two that are read on their own.
* `words_append` — the first word of a text, and what is read from its next line on.
-/

namespace ValueNames.Enumeration

open Text Conditional

/-! ## First words -/

/-- The first word of a field, if the field is not blank. -/
def wordOf? (field : Text) : Option Text :=
  match firstWord field with
  | [] => none
  | word => some word

/-- The first words of the fields of a line. -/
def fieldWords (line : Text) : List Text := (splitOn ',' line).filterMap wordOf?

/-- The first words of the fields of all lines. -/
def words (body : Text) : List Text := (splitOn '\n' body).flatMap fieldWords

theorem memberOfField?_eq (field : Text) :
    memberOfField? field = (wordOf? field).map .member := by
  unfold memberOfField? wordOf?
  cases firstWord field <;> rfl

/-- Blanks before a word do not count. -/
theorem firstWord_cons_of_isBlank {c : Char} (h : isBlank c = true) (s : Text) :
    firstWord (c :: s) = firstWord s := by
  rw [firstWord, trimStart, List.dropWhile_cons_of_pos h]
  rfl

/-- A word at the front is the first word, if a blank or the end follows. -/
theorem firstWord_append {word behind : Text} (hWord : ∀ c ∈ word, isBlank c = false)
    (hNonempty : word ≠ []) (hBehind : ∀ c ∈ behind.head?, isBlank c = true) :
    firstWord (word ++ behind) = word := by
  have hTrim : trimStart (word ++ behind) = word ++ behind := by
    cases word with
    | nil => exact absurd rfl hNonempty
    | cons c word =>
        have hc := hWord c List.mem_cons_self
        exact List.dropWhile_cons_of_neg (by simp [hc])
  have hAll : ∀ c ∈ word, (!isBlank c) = true := by
    intro c hc
    rw [hWord c hc]
    rfl
  have hStop : behind.takeWhile (fun c => !isBlank c) = [] := by
    cases behind with
    | nil => rfl
    | cons c behind =>
        have hc := hBehind c rfl
        exact List.takeWhile_cons_of_neg (by simp [hc])
  rw [firstWord, hTrim, List.takeWhile_append_of_pos hAll, hStop, List.append_nil]

theorem firstWord_cons_of_not_isBlank {c : Char} (h : isBlank c = false) (s : Text) :
    firstWord (c :: s) = c :: s.takeWhile fun c => !isBlank c := by
  rw [firstWord, trimStart, List.dropWhile_cons_of_neg (by simp [h]),
    List.takeWhile_cons_of_pos (by simp [h])]

/-- Blanks behind a text do not count. -/
theorem firstWord_append_gap {gap : Text} (hGap : ∀ c ∈ gap, isBlank c = true) (s : Text) :
    firstWord (s ++ gap) = firstWord s := by
  have hRun : ∀ s : Text, (s ++ gap).takeWhile (fun c => !isBlank c) =
      s.takeWhile fun c => !isBlank c := by
    intro s
    induction s with
    | nil =>
        cases gap with
        | nil => rfl
        | cons c gap =>
            have hc := hGap c List.mem_cons_self
            exact List.takeWhile_cons_of_neg (by simp [hc])
    | cons c s ih => rw [List.cons_append, List.takeWhile_cons, List.takeWhile_cons, ih]
  induction s with
  | nil =>
      have hNone : trimStart gap = [] := by
        rw [trimStart, List.dropWhile_eq_nil_iff]
        exact hGap
      rw [List.nil_append, firstWord, hNone]
      rfl
  | cons c s ih =>
      rw [List.cons_append]
      cases hc : isBlank c with
      | true => rw [firstWord_cons_of_isBlank hc, firstWord_cons_of_isBlank hc, ih]
      | false => rw [firstWord_cons_of_not_isBlank hc, firstWord_cons_of_not_isBlank hc, hRun]

/-! ## The words of a line -/

theorem fieldWords_append_comma (s t : Text) :
    fieldWords (s ++ ',' :: t) = fieldWords s ++ fieldWords t := by
  rw [fieldWords, splitOn_append_sep, List.filterMap_append]
  rfl

/-- A line without a comma is one field. -/
theorem fieldWords_of_not_mem {line : Text} (h : ',' ∉ line) :
    fieldWords line = (wordOf? line).toList := by
  rw [fieldWords, splitOn_of_not_mem h]
  cases hWord : wordOf? line <;> simp [hWord]

theorem fieldWords_cons_of_isBlank {c : Char} (h : isBlank c = true) (s : Text) :
    fieldWords (c :: s) = fieldWords s := by
  have hComma : c ≠ ',' := by
    rintro rfl
    exact absurd h (by decide)
  obtain ⟨field, fields, hFields⟩ := List.exists_cons_of_ne_nil (splitOn_ne_nil ',' s)
  have hFirst : wordOf? (c :: field) = wordOf? field := by
    rw [wordOf?, firstWord_cons_of_isBlank h, wordOf?]
  rw [fieldWords, fieldWords, splitOn_cons_of_ne hComma hFields, hFields, List.filterMap_cons,
    List.filterMap_cons, hFirst]

theorem fieldWords_gap_append {gap : Text} (hGap : ∀ c ∈ gap, isBlank c = true) (s : Text) :
    fieldWords (gap ++ s) = fieldWords s := by
  induction gap with
  | nil => rfl
  | cons c gap ih =>
      rw [List.cons_append, fieldWords_cons_of_isBlank (hGap c List.mem_cons_self)]
      exact ih fun d hd => hGap d (List.mem_cons_of_mem c hd)

theorem fieldWords_append_gap {gap : Text} (hGap : ∀ c ∈ gap, isBlank c = true) (s : Text) :
    fieldWords (s ++ gap) = fieldWords s := by
  have hComma : ',' ∉ gap := fun hMem => absurd (hGap _ hMem) (by decide)
  obtain ⟨front, last, hFields⟩ := exists_last_splitOn ',' s
  have hLast : wordOf? (last ++ gap) = wordOf? last := by
    rw [wordOf?, firstWord_append_gap hGap, wordOf?]
  rw [fieldWords, fieldWords, splitOn_append hFields (splitOn_of_not_mem hComma), hFields,
    List.filterMap_append, List.filterMap_append, List.filterMap_cons, List.filterMap_cons, hLast]

/-- A line is its trimmed text among blanks. -/
theorem exists_gaps_trim (s : Text) :
    ∃ lead tail, s = lead ++ (trim s ++ tail) ∧ (∀ c ∈ lead, isBlank c = true) ∧
      ∀ c ∈ tail, isBlank c = true := by
  have hEnd : trimStart s = trim s ++ ((trimStart s).reverse.takeWhile isBlank).reverse := by
    rw [trim, trimEnd, ← List.reverse_append, List.takeWhile_append_dropWhile,
      List.reverse_reverse]
  refine ⟨s.takeWhile isBlank, ((trimStart s).reverse.takeWhile isBlank).reverse, ?_, ?_, ?_⟩
  · rw [← hEnd, trimStart, List.takeWhile_append_dropWhile]
  · exact List.all_eq_true.mp List.all_takeWhile
  · intro c hc
    exact List.all_eq_true.mp List.all_takeWhile c (List.mem_reverse.mp hc)

theorem fieldWords_trim (line : Text) : fieldWords (trim line) = fieldWords line := by
  obtain ⟨lead, tail, hLine, hLead, hTail⟩ := exists_gaps_trim line
  calc fieldWords (trim line)
      = fieldWords (trim line ++ tail) := (fieldWords_append_gap hTail _).symm
    _ = fieldWords (lead ++ (trim line ++ tail)) := (fieldWords_gap_append hLead _).symm
    _ = fieldWords line := by rw [← hLine]

theorem fieldWords_dropReturn (line : Text) : fieldWords (dropReturn line) = fieldWords line := by
  unfold dropReturn
  split
  · rename_i hLast
    have hLine : line = line.dropLast ++ ['\r'] := by
      obtain ⟨front, rfl⟩ := List.getLast?_eq_some_iff.mp hLast
      rw [List.dropLast_concat]
    have hGap : ∀ c ∈ ['\r'], isBlank c = true := List.forall_mem_singleton.mpr (by decide)
    calc fieldWords line.dropLast
        = fieldWords (line.dropLast ++ ['\r']) := (fieldWords_append_gap hGap _).symm
      _ = fieldWords line := by rw [← hLine]
  · rfl

/-- A line without a hash sign gives the first words of its fields. -/
theorem entriesOfLine_eq {line : Text} (h : '#' ∉ line) :
    entriesOfLine line = (fieldWords line).map .member := by
  have hMembers : ∀ fields : List Text,
      fields.filterMap memberOfField? = (fields.filterMap wordOf?).map .member := by
    intro fields
    rw [List.map_filterMap]
    exact congrArg (fields.filterMap ·) (funext memberOfField?_eq)
  have hTrim : '#' ∉ trim line := by
    obtain ⟨lead, tail, hLine, -, -⟩ := exists_gaps_trim line
    intro hMem
    rw [hLine] at h
    exact h (List.mem_append_right _ (List.mem_append_left _ hMem))
  rw [← fieldWords_trim, fieldWords, ← hMembers]
  unfold entriesOfLine
  split
  · rename_i hNil
    rw [hNil]
    rfl
  · rename_i rest hHash
    rw [hHash] at hTrim
    exact absurd List.mem_cons_self hTrim
  · rfl

/-! ## The words of a body -/

/-- A body without a hash sign gives the first words of its fields. -/
theorem entries_eq {body : Text} (h : '#' ∉ body) : entries body = (words body).map .member := by
  have hPieces : ∀ pieces : List Text, (∀ piece ∈ pieces, '#' ∉ piece) →
      (linesOfPieces pieces).flatMap entriesOfLine = (pieces.flatMap fieldWords).map .member := by
    intro pieces hNone
    fun_induction linesOfPieces pieces with
    | case1 => rfl
    | case2 piece hEmpty =>
        rw [List.isEmpty_iff.mp hEmpty]
        rfl
    | case3 piece hEmpty =>
        rw [List.flatMap_singleton, List.flatMap_singleton,
          entriesOfLine_eq (hNone piece List.mem_cons_self)]
    | case4 piece pieces _ ih =>
        have hPiece := hNone piece List.mem_cons_self
        have hDropped : '#' ∉ dropReturn piece := by
          unfold dropReturn
          split
          · exact fun hMem => hPiece ((List.dropLast_sublist piece).subset hMem)
          · exact hPiece
        rw [List.flatMap_cons, List.flatMap_cons, List.map_append, entriesOfLine_eq hDropped,
          fieldWords_dropReturn, ih fun p hp => hNone p (List.mem_cons_of_mem piece hp)]
  exact hPieces _ fun piece hPiece hMem => h (mem_of_mem_splitOn hPiece hMem)

theorem words_append_newline (s t : Text) : words (s ++ '\n' :: t) = words s ++ words t := by
  rw [words, splitOn_append_sep, List.flatMap_append]
  rfl

theorem words_append_comma (s t : Text) : words (s ++ ',' :: t) = words s ++ words t := by
  obtain ⟨front, last, hs⟩ := exists_last_splitOn '\n' s
  obtain ⟨first, behind, ht⟩ := List.exists_cons_of_ne_nil (splitOn_ne_nil '\n' t)
  have hComma : splitOn '\n' (',' :: t) = (',' :: first) :: behind :=
    splitOn_cons_of_ne (by decide) ht
  rw [words, words, words, splitOn_append hs hComma, hs, ht, List.flatMap_append,
    List.flatMap_append, List.flatMap_singleton, List.flatMap_cons, List.flatMap_cons,
    fieldWords_append_comma, List.append_assoc, List.append_assoc]

theorem words_of_not_mem {s : Text} (h : '\n' ∉ s) : words s = fieldWords s := by
  rw [words, splitOn_of_not_mem h, List.flatMap_singleton]

/-- Blanks and line feeds before a text do not count. -/
theorem words_gap_append {gap : Text} (hGap : ∀ c ∈ gap, isBlank c = true) (s : Text) :
    words (gap ++ s) = words s := by
  induction gap with
  | nil => rfl
  | cons c gap ih =>
      have hRest := ih fun d hd => hGap d (List.mem_cons_of_mem c hd)
      obtain ⟨line, lines, hLines⟩ :=
        List.exists_cons_of_ne_nil (splitOn_ne_nil '\n' (gap ++ s))
      by_cases hNewline : c = '\n'
      · rw [hNewline, List.cons_append, ← hRest]
        exact words_append_newline [] (gap ++ s)
      · rw [List.cons_append, words, splitOn_cons_of_ne hNewline hLines, List.flatMap_cons,
          fieldWords_cons_of_isBlank (hGap c List.mem_cons_self), ← List.flatMap_cons, ← hLines]
        exact hRest

theorem words_gap {gap : Text} (hGap : ∀ c ∈ gap, isBlank c = true) : words gap = [] := by
  have hWords := words_gap_append hGap []
  rwa [List.append_nil] at hWords

theorem nextLine_append_of_not_mem {s : Text} (h : '\n' ∉ s) (t : Text) :
    nextLine (s ++ t) = nextLine t := by
  have hAll : ∀ c ∈ s, decide (c ≠ '\n') = true := by
    intro c hc
    exact decide_eq_true fun hEq => h (hEq ▸ hc)
  rw [nextLine, List.dropWhile_append_of_pos hAll, nextLine]

theorem nextLine_append_newline {s : Text} (h : '\n' ∉ s) (t : Text) :
    nextLine (s ++ '\n' :: t) = t := by
  rw [nextLine_append_of_not_mem h, nextLine, List.dropWhile_cons_of_neg (by simp)]
  rfl

theorem nextLine_of_not_mem {s : Text} (h : '\n' ∉ s) : nextLine s = [] := by
  have hNext := nextLine_append_of_not_mem h []
  rwa [List.append_nil] at hNext

/-- What is read from the line behind a gap on: all that follows a gap with a line feed. -/
theorem words_nextLine_gap_append {gap : Text} (hGap : ∀ c ∈ gap, isBlank c = true) (s : Text) :
    words (nextLine (gap ++ s)) = if '\n' ∈ gap then words s else words (nextLine s) := by
  split
  · rename_i hMem
    obtain ⟨front, back, rfl, hFront⟩ := List.eq_append_cons_of_mem hMem
    have hBack : ∀ c ∈ back, isBlank c = true := by
      intro c hc
      exact hGap c (List.mem_append_right front (List.mem_cons_of_mem _ hc))
    rw [List.append_assoc, List.cons_append, nextLine_append_newline hFront,
      words_gap_append hBack]
  · rename_i hMem
    rw [nextLine_append_of_not_mem hMem]

/--
A word at the front is read, whatever stands behind it up to the end of the line; the
next line is read on its own.
-/
theorem words_append {word behind : Text} (hWord : ∀ c ∈ word, isBlank c = false)
    (hNonempty : word ≠ []) (hBehind : ∀ c ∈ behind.head?, isBlank c = true)
    (hComma : ',' ∉ word ++ behind) :
    words (word ++ behind) = word :: words (nextLine behind) := by
  have hNewline : '\n' ∉ word := fun hMem => absurd (hWord _ hMem) (by decide)
  -- Up to the line feed there is one field, and it begins with the word.
  have hLine : ∀ line rest, behind = line ++ rest → '\n' ∉ line →
      words (word ++ line) = [word] := by
    rintro line rest rfl hNone
    have hHead : ∀ c ∈ line.head?, isBlank c = true := by
      intro c hc
      apply hBehind
      cases line with
      | nil => cases hc
      | cons d line => exact hc
    have hFirst : wordOf? (word ++ line) = some word := by
      rw [wordOf?, firstWord_append hWord hNonempty hHead]
      split
      · exact absurd rfl hNonempty
      · rfl
    have hField : ',' ∉ word ++ line := by
      intro hMem
      apply hComma
      rw [← List.append_assoc]
      exact List.mem_append_left rest hMem
    have hOneLine : '\n' ∉ word ++ line := by
      rw [List.mem_append, not_or]
      exact ⟨hNewline, hNone⟩
    rw [words_of_not_mem hOneLine, fieldWords_of_not_mem hField, hFirst]
    rfl
  by_cases hMem : '\n' ∈ behind
  · obtain ⟨line, rest, rfl, hNone⟩ := List.eq_append_cons_of_mem hMem
    rw [nextLine_append_newline hNone, ← List.append_assoc, words_append_newline,
      hLine line _ rfl hNone]
    rfl
  · rw [hLine behind [] (List.append_nil _).symm hMem, nextLine_of_not_mem hMem]
    rfl

end ValueNames.Enumeration
