import ValueNames.Text.Lines

/-!
# Pieces of texts that are put together

Where two texts meet, the last piece of the one and the first piece of the other become
one, unless the separator stands between them.

## Main results

* `splitOn_append` — the pieces of two texts put together.
* `splitOn_append_sep` — with the separator between them, each text keeps its pieces.
* `splitOn_join` — pieces that are put together with the separator are found again.
-/

namespace ValueNames.Text

variable {sep : Char}

/-- A character that does not separate belongs to the first piece. -/
theorem splitOn_cons_of_ne {c : Char} {s piece : Text} {pieces : List Text} (h : c ≠ sep)
    (hs : splitOn sep s = piece :: pieces) :
    splitOn sep (c :: s) = (c :: piece) :: pieces := by
  rw [splitOn, if_neg h, hs]

/-- Every text has a last piece. -/
theorem exists_last_splitOn (sep : Char) (s : Text) :
    ∃ front last, splitOn sep s = front ++ [last] :=
  ⟨_, _, (List.dropLast_concat_getLast (splitOn_ne_nil sep s)).symm⟩

/-- Where two texts meet, two pieces become one. -/
theorem splitOn_append {s t last first : Text} {front behind : List Text}
    (hs : splitOn sep s = front ++ [last]) (ht : splitOn sep t = first :: behind) :
    splitOn sep (s ++ t) = front ++ (last ++ first) :: behind := by
  induction s generalizing front last with
  | nil =>
      obtain ⟨rfl, rfl⟩ : front = [] ∧ last = [] := by
        cases front with
        | nil => simpa [splitOn, eq_comm] using hs
        | cons piece front => simp [splitOn] at hs
      simpa using ht
  | cons c s ih =>
      by_cases hSep : c = sep
      · rw [splitOn, if_pos hSep] at hs
        rw [List.cons_append, splitOn, if_pos hSep]
        cases front with
        | nil => simp [splitOn_ne_nil] at hs
        | cons piece front =>
            obtain ⟨rfl, hRest⟩ := List.cons.inj hs
            rw [ih hRest, List.cons_append]
      · obtain ⟨own, others, hOwn⟩ := List.exists_cons_of_ne_nil (splitOn_ne_nil sep s)
        rw [splitOn_cons_of_ne hSep hOwn] at hs
        cases front with
        | nil =>
            obtain ⟨rfl, rfl⟩ := List.cons.inj hs
            have hLast : splitOn sep s = [] ++ [own] := hOwn
            exact splitOn_cons_of_ne hSep (ih hLast)
        | cons piece front =>
            obtain ⟨rfl, rfl⟩ := List.cons.inj hs
            have hLast : splitOn sep s = own :: front ++ [last] := hOwn
            exact splitOn_cons_of_ne hSep (ih hLast)

/-- With the separator between two texts, each keeps its pieces. -/
theorem splitOn_append_sep (s t : Text) :
    splitOn sep (s ++ sep :: t) = splitOn sep s ++ splitOn sep t := by
  obtain ⟨front, last, hs⟩ := exists_last_splitOn sep s
  have ht : splitOn sep (sep :: t) = [] :: splitOn sep t := by rw [splitOn, if_pos rfl]
  rw [splitOn_append hs ht, hs, List.append_nil, List.append_assoc]
  rfl

/-- A text without the separator is one piece. -/
theorem splitOn_of_not_mem {s : Text} (h : sep ∉ s) : splitOn sep s = [s] := by
  induction s with
  | nil => rfl
  | cons c s ih =>
      rw [List.mem_cons, not_or] at h
      exact splitOn_cons_of_ne (Ne.symm h.1) (ih h.2)

/-- The characters of a piece are characters of the text. -/
theorem mem_of_mem_splitOn {s piece : Text} {c : Char} (hPiece : piece ∈ splitOn sep s)
    (hc : c ∈ piece) : c ∈ s := by
  induction s generalizing piece with
  | nil =>
      rw [splitOn, List.mem_singleton] at hPiece
      rwa [hPiece] at hc
  | cons d s ih =>
      by_cases hSep : d = sep
      · rw [splitOn, if_pos hSep, List.mem_cons] at hPiece
        rcases hPiece with rfl | hPiece
        · cases hc
        · exact List.mem_cons_of_mem d (ih hPiece hc)
      · obtain ⟨own, others, hOwn⟩ := List.exists_cons_of_ne_nil (splitOn_ne_nil sep s)
        rw [splitOn_cons_of_ne hSep hOwn, List.mem_cons] at hPiece
        rw [hOwn] at ih
        rcases hPiece with rfl | hPiece
        · rcases List.mem_cons.mp hc with rfl | hc
          · exact List.mem_cons_self
          · exact List.mem_cons_of_mem d (ih List.mem_cons_self hc)
        · exact List.mem_cons_of_mem d (ih (List.mem_cons_of_mem own hPiece) hc)

/-- No piece holds the separator. -/
theorem not_mem_of_mem_splitOn {s piece : Text} (h : piece ∈ splitOn sep s) : sep ∉ piece := by
  induction s generalizing piece with
  | nil =>
      rw [splitOn, List.mem_singleton] at h
      rw [h]
      exact List.not_mem_nil
  | cons c s ih =>
      by_cases hSep : c = sep
      · rw [splitOn, if_pos hSep, List.mem_cons] at h
        rcases h with rfl | h
        · exact List.not_mem_nil
        · exact ih h
      · obtain ⟨own, others, hOwn⟩ := List.exists_cons_of_ne_nil (splitOn_ne_nil sep s)
        rw [splitOn_cons_of_ne hSep hOwn] at h
        rw [hOwn] at ih
        rcases List.mem_cons.mp h with rfl | h
        · rw [List.mem_cons, not_or]
          exact ⟨Ne.symm hSep, ih List.mem_cons_self⟩
        · exact ih (List.mem_cons_of_mem own h)

/-- The first of two or more pieces ends at the separator. -/
theorem join_cons_cons (s t : Text) (rest : List Text) :
    join [sep] (s :: t :: rest) = s ++ sep :: join [sep] (t :: rest) := by
  rw [join]
  · rw [List.append_assoc]
    rfl
  · exact List.cons_ne_nil t rest

/-- The pieces ahead of another one end at the separator. -/
theorem join_append_cons (front : List Text) (s : Text) (rest : List Text) :
    join [sep] (front ++ s :: rest) = front.flatMap (· ++ [sep]) ++ join [sep] (s :: rest) := by
  induction front with
  | nil => rfl
  | cons piece front ih =>
      obtain ⟨next, others, hBehind⟩ : ∃ next others, front ++ s :: rest = next :: others :=
        List.exists_cons_of_ne_nil (by simp)
      rw [List.cons_append, hBehind, join_cons_cons, ← hBehind, ih]
      simp

/-- All pieces but the last one end at the separator. -/
theorem join_append_cons_cons (front : List Text) (s t : Text) (rest : List Text) :
    join [sep] (front ++ s :: t :: rest) =
      front.flatMap (· ++ [sep]) ++ (s ++ sep :: join [sep] (t :: rest)) := by
  rw [join_append_cons, join_cons_cons]

/-- Pieces without the separator are found again when they are put together with it. -/
theorem splitOn_join {pieces : List Text} (h : ∀ piece ∈ pieces, sep ∉ piece)
    (hSome : pieces ≠ []) : splitOn sep (join [sep] pieces) = pieces := by
  induction pieces with
  | nil => exact absurd rfl hSome
  | cons piece pieces ih =>
      have hOwn : splitOn sep piece = [piece] :=
        splitOn_of_not_mem (h piece List.mem_cons_self)
      cases pieces with
      | nil => exact hOwn
      | cons next pieces =>
          have hRest := ih (fun other hOther => h other (List.mem_cons_of_mem piece hOther))
            (List.cons_ne_nil next pieces)
          rw [join_cons_cons, splitOn_append_sep, hOwn, hRest]
          rfl

end ValueNames.Text
