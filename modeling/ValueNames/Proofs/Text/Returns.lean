import ValueNames.Proofs.Text.Boundary
import ValueNames.Proofs.Text.Pieces
import ValueNames.Text.Blank
import ValueNames.Text.Word

/-!
# Texts without their carriage returns

In a text with the line ends of another system each line feed has a carriage return before
it, or some of them have. Leaving the carriage returns out gives back the text with plain
line feeds. A reader that treats a carriage return as it treats a line feed reads the same
of both, as long as no carriage return stands on its own.

## Main results

* `bare_dropWhile`, `bare_takeWhile` — runs of characters that hold both or none of the two.
* `stripLead?_bare` — what a text begins with.
* `slice?_bare` — a piece of a text without carriage returns, at the offsets it has there.
* `lineOf_bare` — every offset keeps its line.
-/

namespace ValueNames.Text

/-! ## Carriage returns -/

/-- The text without its carriage returns. -/
def bare (s : Text) : Text := s.filter (· ≠ '\r')

/-- The text with a carriage return before every line feed. -/
def withReturns (s : Text) : Text := s.flatMap fun c => if c = '\n' then ['\r', '\n'] else [c]

/-- Whether every carriage return stands before a line feed. -/
inductive Paired : Text → Prop
  | nil : Paired []
  | char {c : Char} {s : Text} (hc : c ≠ '\r') (hs : Paired s) : Paired (c :: s)
  | lineEnd {s : Text} (hs : Paired s) : Paired ('\r' :: '\n' :: s)

@[simp] theorem bare_nil : bare [] = [] := rfl

@[simp] theorem bare_return (s : Text) : bare ('\r' :: s) = bare s := rfl

theorem bare_cons {c : Char} (hc : c ≠ '\r') (s : Text) : bare (c :: s) = c :: bare s :=
  List.filter_cons_of_pos (by simpa using hc)

@[simp] theorem bare_append (s t : Text) : bare (s ++ t) = bare s ++ bare t :=
  List.filter_append s t

theorem bare_reverse (s : Text) : bare s.reverse = (bare s).reverse := List.filter_reverse

theorem bare_of_not_mem {s : Text} (h : '\r' ∉ s) : bare s = s := by
  rw [bare, List.filter_eq_self]
  intro c hc
  simpa using fun hEq : c = '\r' => h (hEq ▸ hc)

theorem not_mem_bare (s : Text) : '\r' ∉ bare s := by
  simp [bare]

theorem count_newline_bare (s : Text) : (bare s).count '\n' = s.count '\n' :=
  List.count_filter (by decide)

/-- A text is given back by the one with carriage returns. -/
theorem bare_withReturns {s : Text} (h : '\r' ∉ s) : bare (withReturns s) = s := by
  induction s with
  | nil => rfl
  | cons c s ih =>
      rw [List.mem_cons, not_or] at h
      rw [withReturns, List.flatMap_cons, bare_append, ← withReturns, ih h.2]
      by_cases hc : c = '\n'
      · rw [if_pos hc, hc]
        rfl
      · rw [if_neg hc, bare_cons (Ne.symm h.1)]
        rfl

namespace Paired

variable {s t : Text}

theorem append (hs : Paired s) (ht : Paired t) : Paired (s ++ t) := by
  induction hs with
  | nil => exact ht
  | char hc _ ih => exact ih.char hc
  | lineEnd _ ih => exact ih.lineEnd

theorem of_not_mem (h : '\r' ∉ s) : Paired s := by
  induction s with
  | nil => exact nil
  | cons c s ih =>
      rw [List.mem_cons, not_or] at h
      exact (ih h.2).char (Ne.symm h.1)

/-- With a carriage return before every line feed none stands on its own. -/
theorem withReturns (h : '\r' ∉ s) : Paired (withReturns s) := by
  induction s with
  | nil => exact nil
  | cons c s ih =>
      rw [List.mem_cons, not_or] at h
      rw [Text.withReturns, List.flatMap_cons, ← Text.withReturns]
      by_cases hc : c = '\n'
      · rw [if_pos hc]
        exact (ih h.2).lineEnd
      · rw [if_neg hc]
        exact (ih h.2).char (Ne.symm h.1)

theorem tail {c : Char} (h : Paired (c :: s)) : Paired s := by
  cases h with
  | char _ hs => exact hs
  | lineEnd hs => exact hs.char (by decide)

/-- What stands at the end of a text still has its line feeds. -/
theorem of_append_right (h : Paired (s ++ t)) : Paired t := by
  induction s with
  | nil => exact h
  | cons c s ih => exact ih h.tail

theorem of_suffix (hs : Paired s) (h : t <:+ s) : Paired t := by
  obtain ⟨front, rfl⟩ := h
  exact hs.of_append_right

/-- A carriage return stands before a line feed. -/
theorem exists_of_return (h : Paired ('\r' :: s)) : ∃ next, s = '\n' :: next := by
  cases h with
  | char hc _ => exact absurd rfl hc
  | lineEnd _ => exact ⟨_, rfl⟩

/-- What stands at the front of a text has its line feeds unless it ends between the two. -/
theorem of_append_left (h : Paired (s ++ t)) (hLast : s.getLast? ≠ some '\r') : Paired s := by
  induction s with
  | nil => exact nil
  | cons c s ih =>
      by_cases hc : c = '\r'
      · subst hc
        cases s with
        | nil => exact absurd rfl hLast
        | cons d s =>
            obtain ⟨next, hNext⟩ := exists_of_return h
            obtain ⟨rfl, -⟩ := List.cons.inj hNext
            rw [List.getLast?_cons_cons] at hLast
            exact (ih h.tail hLast).tail.lineEnd
      · refine char hc ?_
        cases s with
        | nil => exact nil
        | cons d s =>
            rw [List.getLast?_cons_cons] at hLast
            exact ih h.tail hLast

/-- In front of another character than a line feed no line end is cut. -/
theorem of_append_cons {c : Char} (h : Paired (s ++ c :: t)) (hc : c ≠ '\n') : Paired s := by
  refine h.of_append_left fun hLast => ?_
  obtain ⟨front, rfl⟩ := List.getLast?_eq_some_iff.mp hLast
  rw [List.append_assoc] at h
  obtain ⟨next, hNext⟩ : ∃ next, c :: t = '\n' :: next := h.of_append_right.exists_of_return
  exact hc (List.cons.inj hNext).1

/-- The last character stays the last one unless its line feed stands behind it. -/
theorem getLast?_bare (h : Paired (s ++ t)) :
    (bare s).getLast? = s.getLast? ∨ t.head? = some '\n' := by
  rcases List.eq_nil_or_concat s with rfl | ⟨front, c, rfl⟩
  · exact .inl rfl
  rw [List.concat_eq_append] at h ⊢
  by_cases hc : c = '\r'
  · subst hc
    rw [List.append_assoc] at h
    obtain ⟨next, rfl⟩ : ∃ next, t = '\n' :: next := h.of_append_right.exists_of_return
    exact .inr rfl
  · exact .inl (by simp [bare_cons hc])

/-- Another character than a line feed has no carriage return before it. -/
theorem exists_of_bare_eq_cons {c : Char} (h : Paired s) (hc : c ≠ '\n') (hBare : bare s = c :: t) :
    ∃ rest, s = c :: rest ∧ bare rest = t := by
  cases h with
  | nil => cases hBare
  | @char d s hd _ =>
      rw [bare_cons hd] at hBare
      obtain ⟨rfl, hRest⟩ := List.cons.inj hBare
      exact ⟨s, rfl, hRest⟩
  | lineEnd _ =>
      rw [bare_return, bare_cons (by decide)] at hBare
      exact absurd (List.cons.inj hBare).1.symm hc

/-- Without line feeds there are no carriage returns. -/
theorem not_mem (h : Paired s) (hFeed : '\n' ∉ s) : '\r' ∉ s := by
  induction h with
  | nil => exact List.not_mem_nil
  | char hc _ ih =>
      rw [List.mem_cons, not_or] at hFeed ⊢
      exact ⟨hc.symm, ih hFeed.2⟩
  | lineEnd _ _ => simp at hFeed

/-- What ends the text without carriage returns ends the text, if it is part of one line. -/
theorem exists_of_bare_eq_append {front back : Text} (h : Paired s)
    (hBare : bare s = front ++ back) (hFeed : '\n' ∉ back) :
    ∃ own, s = own ++ back ∧ bare own = front := by
  induction h generalizing front with
  | nil =>
      obtain ⟨rfl, rfl⟩ := List.append_eq_nil_iff.mp hBare.symm
      exact ⟨[], rfl, rfl⟩
  | @char c s hc hs ih =>
      rw [bare_cons hc] at hBare
      cases front with
      | nil =>
          have hNone : '\n' ∉ s := by
            intro hMem
            refine hFeed ?_
            rw [← List.nil_append back, ← hBare]
            exact List.mem_cons_of_mem c (List.mem_filter.mpr ⟨hMem, by decide⟩)
          rw [bare_of_not_mem (hs.not_mem hNone)] at hBare
          exact ⟨[], hBare, rfl⟩
      | cons d front =>
          obtain ⟨rfl, hRest⟩ := List.cons.inj hBare
          obtain ⟨own, rfl, rfl⟩ := ih hRest
          exact ⟨c :: own, rfl, bare_cons hc own⟩
  | @lineEnd s hs ih =>
      rw [bare_return, bare_cons (by decide)] at hBare
      cases front with
      | nil => exact absurd (by rw [← List.nil_append back, ← hBare]; simp) hFeed
      | cons d front =>
          obtain ⟨rfl, hRest⟩ := List.cons.inj hBare
          obtain ⟨own, rfl, rfl⟩ := ih hRest
          exact ⟨'\r' :: '\n' :: own, rfl, rfl⟩

/--
A part of one line ends the text, with something before it, with carriage returns or without.
-/
theorem isSuffix_bare_iff {part : Text} (h : Paired s) (hReturn : '\r' ∉ part)
    (hFeed : '\n' ∉ part) :
    part.length < (bare s).length ∧ part <:+ bare s ↔ part.length < s.length ∧ part <:+ s := by
  constructor
  · rintro ⟨hLength, front, hBare⟩
    obtain ⟨own, rfl, rfl⟩ := h.exists_of_bare_eq_append hBare.symm hFeed
    have hFewer : (bare own).length ≤ own.length := List.length_filter_le _ _
    rw [← hBare, List.length_append] at hLength
    exact ⟨by rw [List.length_append]; omega, List.suffix_append _ _⟩
  · rintro ⟨hLength, own, rfl⟩
    have hSome : bare own ≠ [] := by
      cases own with
      | nil => simp at hLength
      | cons c own =>
          by_cases hc : c = '\r'
          · subst hc
            obtain ⟨next, hNext⟩ : ∃ next, own ++ part = '\n' :: next := h.exists_of_return
            cases own with
            | nil =>
                have hPart : part = '\n' :: next := hNext
                simp [hPart] at hFeed
            | cons d own =>
                obtain ⟨rfl, _⟩ := List.cons.inj hNext
                simp [bare_cons]
          · simp [bare_cons hc]
    have hPos := List.length_pos_iff.mpr hSome
    rw [bare_append, bare_of_not_mem hReturn, List.length_append]
    exact ⟨by omega, List.suffix_append _ _⟩

theorem bare_eq_nil_iff (h : Paired s) : bare s = [] ↔ s = [] := by
  cases h with
  | nil => simp
  | char hc _ => simp [bare_cons hc]
  | lineEnd _ => simp [bare_cons]

end Paired

/-! ## Runs -/

section Runs

variable {p : Char → Bool} {s : Text}

/-- Runs that may hold carriage returns. -/
theorem bare_dropWhile_of_pos (hp : p '\r' = true) (s : Text) :
    bare (s.dropWhile p) = (bare s).dropWhile p := by
  induction s with
  | nil => rfl
  | cons c s ih =>
      by_cases hc : c = '\r'
      · rw [hc, List.dropWhile_cons_of_pos hp, bare_return, ih]
      · rw [bare_cons hc]
        by_cases hpc : p c = true
        · rw [List.dropWhile_cons_of_pos hpc, List.dropWhile_cons_of_pos hpc, ih]
        · rw [List.dropWhile_cons_of_neg hpc, List.dropWhile_cons_of_neg hpc, bare_cons hc]

/-- Runs that hold both characters of a line end or none. -/
theorem bare_dropWhile (hp : p '\r' = p '\n') (h : Paired s) :
    bare (s.dropWhile p) = (bare s).dropWhile p := by
  cases hReturn : p '\r' with
  | true => exact bare_dropWhile_of_pos hReturn s
  | false =>
      have hFeed : ¬ p '\n' = true := by simp [← hp, hReturn]
      induction h with
      | nil => rfl
      | @char c s hc _ ih =>
          rw [bare_cons hc]
          by_cases hpc : p c = true
          · rw [List.dropWhile_cons_of_pos hpc, List.dropWhile_cons_of_pos hpc, ih]
          · rw [List.dropWhile_cons_of_neg hpc, List.dropWhile_cons_of_neg hpc, bare_cons hc]
      | lineEnd _ _ =>
          rw [List.dropWhile_cons_of_neg (by simp [hReturn]), bare_return,
            bare_cons (by decide), List.dropWhile_cons_of_neg hFeed]

theorem bare_takeWhile_of_dropWhile (h : bare (s.dropWhile p) = (bare s).dropWhile p) :
    bare (s.takeWhile p) = (bare s).takeWhile p := by
  have hSplit : bare (s.takeWhile p) ++ bare (s.dropWhile p) =
      (bare s).takeWhile p ++ (bare s).dropWhile p := by
    rw [← bare_append, List.takeWhile_append_dropWhile, List.takeWhile_append_dropWhile]
  rw [h] at hSplit
  exact List.append_cancel_right hSplit

theorem bare_takeWhile_of_pos (hp : p '\r' = true) (s : Text) :
    bare (s.takeWhile p) = (bare s).takeWhile p :=
  bare_takeWhile_of_dropWhile (bare_dropWhile_of_pos hp s)

theorem bare_takeWhile (hp : p '\r' = p '\n') (h : Paired s) :
    bare (s.takeWhile p) = (bare s).takeWhile p :=
  bare_takeWhile_of_dropWhile (bare_dropWhile hp h)

/-- Such a run is not cut between the two characters of a line end. -/
theorem Paired.takeWhile (hp : p '\r' = p '\n') (h : Paired s) : Paired (s.takeWhile p) := by
  induction h with
  | nil => exact nil
  | @char c s hc _ ih =>
      by_cases hpc : p c = true
      · rw [List.takeWhile_cons_of_pos hpc]
        exact ih.char hc
      · rw [List.takeWhile_cons_of_neg hpc]
        exact nil
  | lineEnd _ ih =>
      by_cases hReturn : p '\r' = true
      · rw [List.takeWhile_cons_of_pos hReturn, List.takeWhile_cons_of_pos (hp ▸ hReturn)]
        exact ih.lineEnd
      · rw [List.takeWhile_cons_of_neg hReturn]
        exact nil

/-- A run that stops at a carriage return holds none. -/
theorem takeWhile_bare (hp : p '\r' = false) (hp' : p '\n' = false) (h : Paired s) :
    (bare s).takeWhile p = s.takeWhile p := by
  rw [← bare_takeWhile (hp.trans hp'.symm) h]
  refine bare_of_not_mem fun hMem => ?_
  have hAll := List.all_eq_true.mp List.all_takeWhile '\r' hMem
  rw [hp] at hAll
  cases hAll

/-- Both characters of a line end are blanks. -/
theorem isBlank_lineEnd : isBlank '\r' = isBlank '\n' := by decide

/-- Neither of them is part of a word. -/
theorem isWord_lineEnd : isWord '\r' = false ∧ isWord '\n' = false := by decide +kernel

theorem trimStart_bare (s : Text) : trimStart (bare s) = bare (trimStart s) :=
  (bare_dropWhile_of_pos (by decide) s).symm

theorem trimEnd_bare (s : Text) : trimEnd (bare s) = bare (trimEnd s) := by
  rw [trimEnd, trimEnd, bare_reverse, bare_dropWhile_of_pos (by decide), bare_reverse]

theorem allBlank_bare (s : Text) : allBlank (bare s) = allBlank s := by
  induction s with
  | nil => rfl
  | cons c s ih =>
      by_cases hc : c = '\r'
      · rw [hc, bare_return, ih, allBlank, allBlank, List.all_cons]
        rfl
      · rw [bare_cons hc, allBlank, List.all_cons, ← allBlank, ih, allBlank, allBlank,
          List.all_cons]

/-- A text begins with a lead without line ends if it does so without carriage returns. -/
theorem stripLead?_bare {lead : Text} (hReturn : '\r' ∉ lead) (hFeed : '\n' ∉ lead)
    (h : Paired s) : stripLead? lead (bare s) = (stripLead? lead s).map bare := by
  induction lead generalizing s with
  | nil => rfl
  | cons a lead ih =>
      rw [List.mem_cons, not_or] at hReturn hFeed
      cases h with
      | nil => rfl
      | @char c s hc hs =>
          rw [bare_cons hc, stripLead?, stripLead?]
          split
          · exact ih hReturn.2 hFeed.2 hs
          · rfl
      | lineEnd hs =>
          rw [bare_return, bare_cons (by decide), stripLead?, stripLead?,
            if_neg (Ne.symm hFeed.1), if_neg (Ne.symm hReturn.1)]
          rfl

end Runs

/-! ## Offsets -/

/-- The offset in the text without carriage returns of what stands at an offset of a text. -/
def bareOffset : Text → Nat → Nat
  | [], _ => 0
  | c :: s, offset => if offset = 0 then 0 else size (bare [c]) + bareOffset s (offset - c.utf8Size)

@[simp] theorem bareOffset_zero (s : Text) : bareOffset s 0 = 0 := by
  cases s with
  | nil => rfl
  | cons c s => exact if_pos rfl

theorem bareOffset_append (front back : Text) (offset : Nat) :
    bareOffset (front ++ back) (size front + offset) =
      size (bare front) + bareOffset back offset := by
  induction front with
  | nil => simp
  | cons c front ih =>
      have hc : 0 < c.utf8Size := c.utf8Size_pos
      have hNe : ¬ c.utf8Size + size front + offset = 0 := by omega
      have hSub : c.utf8Size + size front + offset - c.utf8Size = size front + offset := by omega
      have hSize : size (bare (c :: front)) = size (bare [c]) + size (bare front) := by
        rw [← List.singleton_append, bare_append, size_append]
      rw [List.cons_append, size_cons, bareOffset, if_neg hNe, hSub, ih, hSize, Nat.add_assoc]

/-- What stands behind an offset does not matter. -/
theorem bareOffset_append_left {s : Text} {offset : Nat} (h : offset ≤ size s) (t : Text) :
    bareOffset (s ++ t) offset = bareOffset s offset := by
  induction s generalizing offset with
  | nil =>
      obtain rfl : offset = 0 := by simpa using h
      simp
  | cons c s ih =>
      rw [size_cons] at h
      rw [List.cons_append, bareOffset, bareOffset, ih (by omega)]

/-- An offset is known from the text before it. -/
theorem bareOffset_size (front back : Text) :
    bareOffset (front ++ back) (size front) = size (bare front) := by
  have hOffset := bareOffset_append front back 0
  rwa [Nat.add_zero, bareOffset_zero, Nat.add_zero] at hOffset

/-- The end of a text is the end of the text without carriage returns. -/
theorem bareOffset_end (s : Text) : bareOffset s (size s) = size (bare s) := by
  have hEnd := bareOffset_size s []
  rwa [List.append_nil] at hEnd

/-- A piece of a text without carriage returns, at the offsets it has there. -/
theorem slice?_bare {source text : Text} {start stop : Nat}
    (h : slice? source start stop = some text) :
    slice? (bare source) (bareOffset source start) (bareOffset source stop) =
      some (bare text) := by
  obtain ⟨front, back, rfl, rfl, rfl⟩ := slice?_eq_some_iff.mp h
  have hStop := bareOffset_size (front ++ text) back
  rw [size_append] at hStop
  rw [hStop, List.append_assoc, bareOffset_size]
  exact slice?_eq_some_iff.mpr ⟨bare front, bare back, by simp, rfl, by simp⟩

/-- With its carriage returns left out no piece becomes empty. -/
theorem bareOffset_lt_iff_of_slice? {source text : Text} {start stop : Nat}
    (h : slice? source start stop = some text) (hPaired : Paired text) :
    bareOffset source start < bareOffset source stop ↔ start < stop := by
  obtain ⟨front, back, rfl, rfl, rfl⟩ := slice?_eq_some_iff.mp h
  have hStop := bareOffset_size (front ++ text) back
  rw [size_append] at hStop
  rw [hStop, List.append_assoc, bareOffset_size, bare_append, size_append]
  have hEmpty : size (bare text) = 0 ↔ size text = 0 := by
    constructor
    · intro hNone
      rw [hPaired.bare_eq_nil_iff.mp (eq_nil_of_size_eq_zero hNone)]
      rfl
    · intro hNone
      rw [eq_nil_of_size_eq_zero hNone]
      rfl
  omega

/-- Every offset keeps its line. -/
theorem lineOf_bare {source : Text} {offset : Nat} (h : IsBoundary source offset) :
    lineOf (bare source) (bareOffset source offset) = lineOf source offset := by
  obtain ⟨front, back, rfl, rfl⟩ := h
  rw [bareOffset_size, bare_append, lineOf_size, lineOf_size, count_newline_bare]

/-- Whether an offset lies before a character that is no carriage return. -/
def IsSolid (s : Text) (offset : Nat) : Prop :=
  ∃ front c back, s = front ++ c :: back ∧ c ≠ '\r' ∧ size front = offset

theorem IsSolid.isBoundary {s : Text} {offset : Nat} (h : IsSolid s offset) :
    IsBoundary s offset := by
  obtain ⟨front, c, back, hSplit, -, hSize⟩ := h
  exact ⟨front, c :: back, hSplit, hSize⟩

/-- Offsets stay in their order. -/
theorem bareOffset_mono {s : Text} {low high : Nat} (hLow : IsBoundary s low)
    (hHigh : IsBoundary s high) (h : low ≤ high) : bareOffset s low ≤ bareOffset s high := by
  obtain ⟨front, back, rfl, rfl⟩ := hLow
  obtain ⟨front', back', hSplit, rfl⟩ := hHigh
  obtain ⟨middle, rfl, -⟩ := exists_append_of_size_le rfl hSplit h
  rw [bareOffset_size, hSplit, bareOffset_size, bare_append, size_append]
  omega

/-- Offsets before other characters than carriage returns stay apart. -/
theorem bareOffset_lt {s : Text} {low high : Nat} (hLow : IsSolid s low)
    (hHigh : IsBoundary s high) (h : low < high) : bareOffset s low < bareOffset s high := by
  obtain ⟨front, c, back, rfl, hc, rfl⟩ := hLow
  obtain ⟨front', back', hSplit, rfl⟩ := hHigh
  obtain ⟨middle, rfl, hBack⟩ := exists_append_of_size_le rfl hSplit (Nat.le_of_lt h)
  cases middle with
  | nil => simp at h
  | cons d middle =>
      obtain ⟨rfl, -⟩ := List.cons.inj hBack
      have hPos : 0 < c.utf8Size := c.utf8Size_pos
      rw [bareOffset_size, hSplit, bareOffset_size, bare_append, bare_cons hc, size_append,
        size_cons]
      omega

/-! ## Lines -/

theorem splitOn_bare (s : Text) : splitOn '\n' (bare s) = (splitOn '\n' s).map bare := by
  induction s with
  | nil => rfl
  | cons c s ih =>
      obtain ⟨piece, pieces, hPieces⟩ := List.exists_cons_of_ne_nil (splitOn_ne_nil '\n' s)
      rw [hPieces, List.map_cons] at ih
      by_cases hReturn : c = '\r'
      · rw [hReturn, bare_return, ih, splitOn_cons_of_ne (by decide) hPieces, List.map_cons,
          bare_return]
      · rw [bare_cons hReturn]
        by_cases hFeed : c = '\n'
        · rw [splitOn, if_pos hFeed, splitOn, if_pos hFeed, ih, hPieces]
          rfl
        · rw [splitOn_cons_of_ne hFeed ih, splitOn_cons_of_ne hFeed hPieces, List.map_cons,
            bare_cons hReturn]

theorem dropReturn_cons {c : Char} (hc : c ≠ '\r') (line : Text) :
    dropReturn (c :: line) = c :: dropReturn line := by
  cases line with
  | nil => simp [dropReturn, hc]
  | cons d line =>
      rw [dropReturn, dropReturn, List.getLast?_cons_cons]
      split
      · rfl
      · rfl

/-- A carriage return at the end of a line is no part of the line. -/
theorem lines_bare {s : Text} (h : Paired s) : lines (bare s) = lines s := by
  rw [lines, lines, splitOn_bare]
  induction h with
  | nil => rfl
  | @char c s hc _ ih =>
      obtain ⟨piece, pieces, hPieces⟩ := List.exists_cons_of_ne_nil (splitOn_ne_nil '\n' s)
      rw [hPieces] at ih
      by_cases hFeed : c = '\n'
      · rw [splitOn, if_pos hFeed, hPieces]
        exact congrArg (dropReturn [] :: ·) ih
      · rw [splitOn_cons_of_ne hFeed hPieces, List.map_cons, bare_cons hc]
        cases pieces with
        | nil =>
            have hOne : ∀ last : Text, (linesOfPieces [last]).flatten = last := by
              intro last
              cases last <;> simp [linesOfPieces]
            have hLast := congrArg List.flatten ih
            rw [List.map_singleton, hOne, hOne] at hLast
            rw [List.map_nil, hLast]
        | cons next pieces =>
            obtain ⟨hLine, hLines⟩ := List.cons.inj ih
            show dropReturn (c :: bare piece) :: _ = dropReturn (c :: piece) :: _
            rw [dropReturn_cons hc, dropReturn_cons hc, hLine]
            exact congrArg _ hLines
  | @lineEnd s _ ih =>
      obtain ⟨piece, pieces, hPieces⟩ := List.exists_cons_of_ne_nil (splitOn_ne_nil '\n' s)
      have hFirst : splitOn '\n' ('\r' :: '\n' :: s) = ['\r'] :: splitOn '\n' s :=
        splitOn_cons_of_ne (by decide) (by rw [splitOn, if_pos rfl])
      rw [hFirst, List.map_cons]
      rw [hPieces] at ih ⊢
      exact congrArg ([] :: ·) ih

end ValueNames.Text
