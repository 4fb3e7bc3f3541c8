import ValueNames.Proofs.Enumeration.Words
import ValueNames.Proofs.Text.Trim

/-!
# The lines of a body

A body is read line by line, and of a line only what stands between its blanks counts. A
carriage return before a line feed is such a blank, and a blank line gives nothing. So the
body can be cut at every line feed, and its parts are read on their own.

## Main results

* `trimmedLines_trimEnd` — blanks at the end of a text do not change its trimmed lines.
* `entries_eq_flatMap` — the entries of a body are those of its pieces between line feeds.
* `entries_append_newline` — with a line feed between two texts, each keeps its entries.
-/

namespace ValueNames

namespace Text

/-! ## Trimmed lines -/

/-- The lines of a text between its line feeds, each without the blanks at its ends. -/
def trimmedLines (s : Text) : List Text := (splitOn '\n' s).map trim

/-- Where the last line is not blank, the blanks at the end of a text are on it. -/
theorem trimmedLines_trimEnd {s : Text} (h : ∀ line ∈ (trimmedLines s).getLast?, line ≠ []) :
    trimmedLines (trimEnd s) = trimmedLines s := by
  have hOne : ∀ line : Text, '\n' ∉ line → trimmedLines line = [trim line] := by
    intro line hLine
    rw [trimmedLines, splitOn_of_not_mem hLine, List.map_singleton]
  have hEnd : ∀ line : Text, '\n' ∉ line → '\n' ∉ trimEnd line :=
    fun line hLine hMem => hLine (mem_of_mem_trimEnd hMem)
  by_cases hMem : '\n' ∈ s
  · -- The last line stands behind the last line feed.
    obtain ⟨last, front, hReverse, hLast⟩ := List.eq_append_cons_of_mem (List.mem_reverse.mpr hMem)
    have hText : s = front.reverse ++ '\n' :: last.reverse := by
      have hBoth := congrArg List.reverse hReverse
      rw [List.reverse_reverse] at hBoth
      rw [hBoth]
      simp
    have hLine : '\n' ∉ last.reverse := fun hIn => hLast (List.mem_reverse.mp hIn)
    generalize front.reverse = ahead at hText
    generalize last.reverse = line at hText hLine
    subst hText
    have hLines : ∀ t : Text, trimmedLines (ahead ++ '\n' :: t) =
        trimmedLines ahead ++ trimmedLines t := by
      intro t
      rw [trimmedLines, splitOn_append_sep, List.map_append]
      rfl
    have hSome : trimEnd line ≠ [] := by
      intro hNone
      refine h (trim line) ?_ ?_
      · rw [hLines, hOne line hLine, List.getLast?_concat]
        rfl
      · rw [← trim_trimEnd, hNone]
        rfl
    have hTrim : trimEnd (ahead ++ '\n' :: line) = ahead ++ '\n' :: trimEnd line := by
      have hSplit : ahead ++ '\n' :: line = (ahead ++ ['\n']) ++ line := by simp
      rw [hSplit, trimEnd_append_of_ne_nil hSome, List.append_assoc]
      rfl
    rw [hTrim, hLines, hLines, hOne line hLine, hOne _ (hEnd line hLine), trim_trimEnd]
  · rw [hOne s hMem, hOne _ (hEnd s hMem), trim_trimEnd]

end Text

namespace Enumeration

open Text

/-! ## The entries of a line -/

/-- Of a line only what stands between its blanks counts. -/
theorem entriesOfLine_congr {line other : Text} (h : trim line = trim other) :
    entriesOfLine line = entriesOfLine other := by
  unfold entriesOfLine
  rw [h]

/-- A line that begins with a hash sign is kept as it is, without its blanks. -/
theorem entriesOfLine_directive {line : Text} (h : (trim line).head? = some '#') :
    entriesOfLine line = [.directive (trim line)] := by
  obtain ⟨rest, hRest⟩ := List.head?_eq_some_iff.mp h
  rw [entriesOfLine, hRest]
  rfl

/-! ## The entries of a body -/

/-- The entries of a body are those of its pieces between line feeds. -/
theorem entries_eq_flatMap (body : Text) :
    entries body = (splitOn '\n' body).flatMap entriesOfLine := by
  rw [entries, lines]
  generalize splitOn '\n' body = pieces
  fun_induction linesOfPieces pieces with
  | case1 => rfl
  | case2 piece hEmpty =>
      rw [List.isEmpty_iff.mp hEmpty]
      rfl
  | case3 piece hSome => rfl
  | case4 piece pieces _ ih =>
      rw [List.flatMap_cons, List.flatMap_cons, ih, entriesOfLine_congr (trim_dropReturn piece)]

/-- A text without a line feed is one line. -/
theorem entries_of_not_mem {line : Text} (h : '\n' ∉ line) :
    entries line = entriesOfLine line := by
  rw [entries_eq_flatMap, splitOn_of_not_mem h, List.flatMap_singleton]

/-- With a line feed between two texts, each keeps its entries. -/
theorem entries_append_newline (s t : Text) :
    entries (s ++ '\n' :: t) = entries s ++ entries t := by
  rw [entries_eq_flatMap, splitOn_append_sep, List.flatMap_append, ← entries_eq_flatMap,
    ← entries_eq_flatMap]

end Enumeration

end ValueNames
