import ValueNames.Text.Lines

/-!
# Character boundaries

Offsets count bytes, so that not every offset can be cut at. The offsets
that can are boundaries, and any two of them in order cut out a piece.

## Main results

* `exists_slice?` — two boundaries in order cut out a piece of the text.
* `lineOf_size` — the line of a boundary is known from the text before it.
-/

namespace ValueNames.Text

/-- Whether an offset lies between two characters of a text, or at one of its ends. -/
def IsBoundary (s : Text) (offset : Nat) : Prop :=
  ∃ front back, s = front ++ back ∧ size front = offset

/-- Whether an offset lies before a line feed or at the end of a text. -/
def IsLineEnd (s : Text) (offset : Nat) : Prop :=
  ∃ front back, s = front ++ back ∧ (back = [] ∨ ∃ next, back = '\n' :: next) ∧
    size front = offset

/-- Whether an offset lies at the start of a text or behind a line feed. -/
def IsLineStart (s : Text) (offset : Nat) : Prop :=
  ∃ front back, s = front ++ back ∧ (front = [] ∨ ∃ line, front = line ++ ['\n']) ∧
    size front = offset

theorem IsLineEnd.isBoundary {s : Text} {offset : Nat} (h : IsLineEnd s offset) :
    IsBoundary s offset := by
  obtain ⟨front, back, hSplit, _, hSize⟩ := h
  exact ⟨front, back, hSplit, hSize⟩

theorem IsLineStart.isBoundary {s : Text} {offset : Nat} (h : IsLineStart s offset) :
    IsBoundary s offset := by
  obtain ⟨front, back, hSplit, _, hSize⟩ := h
  exact ⟨front, back, hSplit, hSize⟩

theorem isBoundary_zero (s : Text) : IsBoundary s 0 := ⟨[], s, rfl, rfl⟩

/-- Text can be cut at its start and at the ends of its lines. -/
theorem isBoundary_of_start {s : Text} {offset : Nat} (h : offset = 0 ∨ IsLineEnd s offset) :
    IsBoundary s offset := by
  rcases h with rfl | hLineEnd
  · exact isBoundary_zero s
  · exact hLineEnd.isBoundary

theorem isBoundary_size (s : Text) : IsBoundary s (size s) := ⟨s, [], by simp, rfl⟩

theorem IsBoundary.le_size {s : Text} {offset : Nat} (h : IsBoundary s offset) :
    offset ≤ size s := by
  obtain ⟨front, back, rfl, rfl⟩ := h
  simp

theorem eq_nil_of_size_eq_zero {s : Text} (h : size s = 0) : s = [] := by
  have hLength := length_le_size s
  exact List.eq_nil_of_length_eq_zero (by omega)

/-- Of two beginnings of a text, the one with fewer bytes begins the other. -/
theorem exists_append_of_size_le {s front back front' back' : Text}
    (h : s = front ++ back) (h' : s = front' ++ back') (hSize : size front ≤ size front') :
    ∃ middle, front' = front ++ middle ∧ back = middle ++ back' := by
  have hEq : front ++ back = front' ++ back' := h.symm.trans h'
  rcases List.append_eq_append_iff.mp hEq with ⟨middle, rfl, rfl⟩ | ⟨middle, rfl, rfl⟩
  · exact ⟨middle, rfl, rfl⟩
  · simp only [size_append] at hSize
    obtain rfl := eq_nil_of_size_eq_zero (s := middle) (by omega)
    exact ⟨[], by simp, by simp⟩

/-- A text can be cut in only one way at an offset. -/
theorem append_inj_of_size {front back front' back' : Text}
    (h : front ++ back = front' ++ back') (hSize : size front = size front') :
    front = front' ∧ back = back' := by
  obtain ⟨middle, rfl, rfl⟩ := exists_append_of_size_le rfl h (Nat.le_of_eq hSize)
  simp only [size_append] at hSize
  obtain rfl := eq_nil_of_size_eq_zero (s := middle) (by omega)
  simp

theorem exists_slice? {s : Text} {start stop : Nat} (hStart : IsBoundary s start)
    (hStop : IsBoundary s stop) (h : start ≤ stop) : ∃ t, slice? s start stop = some t := by
  obtain ⟨front, back, hFront, rfl⟩ := hStart
  obtain ⟨front', back', hFront', rfl⟩ := hStop
  obtain ⟨middle, rfl, rfl⟩ := exists_append_of_size_le hFront hFront' h
  exact ⟨middle, slice?_eq_some_iff.mpr ⟨front, back', by simpa using hFront, rfl, by simp⟩⟩

/-- A piece of a text that holds another one is what it holds with text on both sides. -/
theorem exists_around_of_slice? {s front taken back text : Text} {start stop : Nat}
    (h : s = front ++ (taken ++ back)) (hText : slice? s start stop = some text)
    (hStart : start ≤ size front) (hStop : size front + size taken ≤ stop) :
    ∃ ahead middle last behind, front = ahead ++ middle ∧ size ahead = start ∧
      text = middle ++ (taken ++ last) ∧ back = last ++ behind := by
  obtain ⟨ahead, behind, hSplit, hAhead, hBehind⟩ := slice?_eq_some_iff.mp hText
  have hAheadSize : size ahead ≤ size front := by omega
  have hAheadSplit : s = ahead ++ (text ++ behind) := by
    rw [hSplit, List.append_assoc]
  obtain ⟨middle, rfl, hMiddle⟩ := exists_append_of_size_le hAheadSplit h hAheadSize
  have hTextSize : size (middle ++ taken) ≤ size text := by
    simp only [size_append] at hStop ⊢
    omega
  have hTextSplit : text ++ behind = middle ++ taken ++ back := by
    rw [hMiddle, List.append_assoc]
  obtain ⟨last, hLast, hBack⟩ := exists_append_of_size_le hTextSplit rfl hTextSize
  exact ⟨ahead, middle, last, behind, rfl, hAhead, by rw [hLast, List.append_assoc], hBack⟩

/-- A piece of the first of two texts does not depend on the second. -/
theorem slice?_append_left (s t : Text) (start : Nat) {stop : Nat} (h : stop ≤ size s) :
    slice? (s ++ t) start stop = slice? s start stop := by
  apply Option.ext
  intro piece
  rw [slice?_eq_some_iff, slice?_eq_some_iff]
  constructor
  · rintro ⟨front, back, hSplit, hStart, hStop⟩
    have hSize : size (front ++ piece) ≤ size s := by
      rw [size_append]
      omega
    obtain ⟨rest, hFront, _⟩ := exists_append_of_size_le hSplit rfl hSize
    exact ⟨front, rest, hFront, hStart, hStop⟩
  · rintro ⟨front, back, rfl, hStart, hStop⟩
    exact ⟨front, back ++ t, by simp, hStart, hStop⟩

/-- A piece of the second of two texts stands behind the first. -/
theorem slice?_append_right (s t : Text) (start stop : Nat) :
    slice? (s ++ t) (start + size s) (stop + size s) = slice? t start stop := by
  apply Option.ext
  intro piece
  rw [slice?_eq_some_iff, slice?_eq_some_iff]
  constructor
  · rintro ⟨front, back, hSplit, hStart, hStop⟩
    obtain ⟨middle, rfl, rfl⟩ := exists_append_of_size_le rfl
      (hSplit.trans (List.append_assoc _ _ _)) (by omega)
    simp only [size_append] at hStart hStop
    exact ⟨middle, back, by simp, by omega, by omega⟩
  · rintro ⟨front, back, rfl, hStart, hStop⟩
    refine ⟨s ++ front, back, by simp, ?_, ?_⟩
    · rw [size_append]
      omega
    · rw [size_append]
      omega

/-! ## Texts that end a line -/

/-- Whether what follows a text begins a line. -/
def EndsLine (s : Text) : Prop := s = [] ∨ ∃ line, s = line ++ ['\n']

/-- A text that ends a line ends it wherever it begins. -/
theorem EndsLine.of_suffix {s t : Text} (h : EndsLine s) (hSuffix : t <:+ s) :
    EndsLine t := by
  by_cases hEmpty : t = []
  · exact .inl hEmpty
  · obtain ⟨front, rfl⟩ := hSuffix
    rcases h with hNone | ⟨line, hLine⟩
    · exact absurd (List.append_eq_nil_iff.mp hNone).2 hEmpty
    · have hLast := congrArg List.getLast? hLine
      rw [List.getLast?_append, List.getLast?_eq_some_getLast hEmpty, Option.some_or,
        List.getLast?_concat, ← List.getLast?_eq_some_getLast hEmpty] at hLast
      exact .inr (List.getLast?_eq_some_iff.mp hLast)

/-- A text that ends with a line feed holds every keyword that begins in it. -/
theorem EndsLine.not_prefix {keyword front s : Text} (hLine : EndsLine front)
    (hKeyword : '\n' ∉ keyword) (hNone : ¬ keyword <:+: front) (hSuffix : s <:+ front)
    (hSome : s ≠ []) (back : Text) : ¬ keyword <+: s ++ back := by
  intro hPrefix
  rcases List.prefix_or_prefix_of_prefix hPrefix (List.prefix_append s back) with hIn | hPart
  · exact hNone (hIn.isInfix.trans hSuffix.isInfix)
  · -- The keyword would go on behind the line feed.
    rcases hLine.of_suffix hSuffix with hEmpty | ⟨line, rfl⟩
    · exact hSome hEmpty
    · exact hKeyword (hPart.subset (by simp))

/-! ## Lines -/

/-- In the first of two texts the line feeds before an offset are those of that text. -/
theorem newlinesBefore_append_left (s t : Text) {offset : Nat} (h : offset ≤ size s) :
    newlinesBefore (s ++ t) offset = newlinesBefore s offset := by
  induction s generalizing offset with
  | nil =>
      obtain rfl : offset = 0 := Nat.le_zero.mp h
      rw [newlinesBefore_zero, newlinesBefore_zero]
  | cons c s ih =>
      have hRest : offset - c.utf8Size ≤ size s := by
        rw [size_cons] at h
        omega
      rw [newlinesBefore, newlinesBefore, List.cons_append, addNewlines, addNewlines]
      split
      · rfl
      · rw [addNewlines_eq, addNewlines_eq _ s, ih hRest]

theorem lineOf_append_left (s t : Text) {offset : Nat} (h : offset ≤ size s) :
    lineOf (s ++ t) offset = lineOf s offset := by
  rw [lineOf, lineOf, newlinesBefore_append_left s t h]

/-- Behind the first of two texts, the line is known from its line feeds. -/
theorem lineOf_size (front back : Text) :
    lineOf (front ++ back) (size front) = front.count '\n' + 1 := by
  have hLine := lineOf_append front back 0
  rw [Nat.add_zero] at hLine
  rw [hLine, lineOf, newlinesBefore_zero]

end ValueNames.Text
