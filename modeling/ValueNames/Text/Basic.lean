/-!
# Text and its byte offsets

A text is a list of characters. Positions in a text are counted in bytes of
its UTF-8 form, because that is how spans are reported; a position that
falls inside a character is therefore possible, and cutting there has no
answer.

## Main results

* `splitAt?_eq_some_iff` — a cut succeeds exactly when the text is the two
  parts put together and the first part has the asked size.
* `slice?_eq_some_iff` — a slice is the middle of a three-part split.
-/

namespace ValueNames

/-- Text is a list of Unicode characters. -/
abbrev Text := List Char

namespace Text

/-! ## Size -/

/-- The number of bytes of the UTF-8 form. -/
def size (s : Text) : Nat := s.foldl (fun total c => total + c.utf8Size) 0

@[simp] theorem size_nil : size [] = 0 := rfl

theorem foldl_utf8Size (s : Text) (total : Nat) :
    s.foldl (fun total c => total + c.utf8Size) total = total + size s := by
  unfold size
  induction s generalizing total with
  | nil => rfl
  | cons c s ih =>
      rw [List.foldl_cons, List.foldl_cons, ih, ih (0 + c.utf8Size)]
      omega

@[simp] theorem size_cons (c : Char) (s : Text) :
    size (c :: s) = c.utf8Size + size s := by
  have hFold := foldl_utf8Size s (0 + c.utf8Size)
  rw [Nat.zero_add] at hFold
  simpa [size] using hFold

@[simp] theorem size_append (s t : Text) : size (s ++ t) = size s + size t := by
  induction s with
  | nil => simp
  | cons c s ih => simp [ih, Nat.add_assoc]

/-- Every character takes at least one byte. -/
theorem length_le_size (s : Text) : s.length ≤ size s := by
  induction s with
  | nil => simp
  | cons c s ih =>
      have hc : 0 < c.utf8Size := c.utf8Size_pos
      simp only [List.length_cons, size_cons]
      omega

/-! ## Cutting -/

/-- Adds to `count` the characters before a byte offset, if it is a character boundary. -/
def charsBefore? (count : Nat) : Nat → Text → Option Nat
  | 0, _ => some count
  | _ + 1, [] => none
  | n + 1, c :: s =>
      if c.utf8Size ≤ n + 1 then charsBefore? (count + 1) (n + 1 - c.utf8Size) s else none

theorem charsBefore?_eq_some_iff {count n k : Nat} {s : Text} :
    charsBefore? count n s = some k ↔
      ∃ front back, s = front ++ back ∧ size front = n ∧ k = count + front.length := by
  induction s generalizing count n with
  | nil =>
      cases n with
      | zero => simp [charsBefore?, eq_comm]
      | succ n =>
          simp only [charsBefore?, reduceCtorEq, false_iff, not_exists, not_and]
          intro front back hSplit hSize
          obtain ⟨rfl, rfl⟩ := List.append_eq_nil_iff.mp hSplit.symm
          simp at hSize
  | cons c s ih =>
      have hc : 0 < c.utf8Size := c.utf8Size_pos
      cases n with
      | zero =>
          constructor
          · intro h
            simp only [charsBefore?, Option.some.injEq] at h
            exact ⟨[], c :: s, rfl, rfl, by simp [h]⟩
          · intro ⟨front, back, _, hSize, hCount⟩
            have hLength := length_le_size front
            simp only [charsBefore?, Option.some.injEq]
            omega
      | succ n =>
          constructor
          · intro h
            simp only [charsBefore?] at h
            split at h
            · obtain ⟨front, back, rfl, hSize, hCount⟩ := ih.mp h
              refine ⟨c :: front, back, rfl, ?_, ?_⟩
              · simp only [size_cons]
                omega
              · simp only [List.length_cons]
                omega
            · simp at h
          · intro ⟨front, back, hSplit, hSize, hCount⟩
            cases front with
            | nil => simp at hSize
            | cons d front =>
                simp only [List.cons_append, List.cons.injEq] at hSplit
                obtain ⟨rfl, rfl⟩ := hSplit
                simp only [size_cons] at hSize
                simp only [List.length_cons] at hCount
                have hFits : c.utf8Size ≤ n + 1 := by omega
                simp only [charsBefore?, hFits, if_true]
                exact ih.mpr ⟨front, back, rfl, by omega, by omega⟩

/-- The text before and after a byte offset, if the offset is a character boundary. -/
def splitAt? (n : Nat) (s : Text) : Option (Text × Text) :=
  (charsBefore? 0 n s).map fun k => (s.take k, s.drop k)

theorem splitAt?_eq_some_iff {n : Nat} {s front back : Text} :
    splitAt? n s = some (front, back) ↔ s = front ++ back ∧ size front = n := by
  constructor
  · intro h
    obtain ⟨k, hCount, hEq⟩ := Option.map_eq_some_iff.mp h
    obtain ⟨front', back', rfl, hSize, rfl⟩ := charsBefore?_eq_some_iff.mp hCount
    simp only [Nat.zero_add, List.take_left, List.drop_left, Prod.mk.injEq] at hEq
    obtain ⟨rfl, rfl⟩ := hEq
    exact ⟨rfl, hSize⟩
  · rintro ⟨rfl, hSize⟩
    have hCount : charsBefore? 0 n (front ++ back) = some front.length :=
      charsBefore?_eq_some_iff.mpr ⟨front, back, rfl, hSize, by simp⟩
    simp [splitAt?, hCount]

/-- The text between two byte offsets, if both are character boundaries in order. -/
def slice? (s : Text) (start stop : Nat) : Option Text :=
  if stop < start then none
  else
    (splitAt? start s).bind fun (_, back) =>
      (splitAt? (stop - start) back).map fun (middle, _) => middle

theorem slice?_eq_some_iff {s t : Text} {start stop : Nat} :
    slice? s start stop = some t ↔
      ∃ front back, s = front ++ t ++ back ∧ size front = start ∧
        size front + size t = stop := by
  unfold slice?
  constructor
  · intro h
    split at h
    · simp at h
    · obtain ⟨⟨front, tail⟩, hFront, hRest⟩ := Option.bind_eq_some_iff.mp h
      obtain ⟨⟨middle, back⟩, hMiddle, rfl⟩ := Option.map_eq_some_iff.mp hRest
      obtain ⟨rfl, hStart⟩ := splitAt?_eq_some_iff.mp hFront
      obtain ⟨rfl, hStop⟩ := splitAt?_eq_some_iff.mp hMiddle
      exact ⟨front, back, by simp, hStart, by simp only; omega⟩
  · intro ⟨front, back, hSplit, hStart, hStop⟩
    have hOrder : ¬ stop < start := by omega
    have hFront : splitAt? start s = some (front, t ++ back) :=
      splitAt?_eq_some_iff.mpr ⟨by simpa using hSplit, hStart⟩
    have hMiddle : splitAt? (stop - start) (t ++ back) = some (t, back) :=
      splitAt?_eq_some_iff.mpr ⟨rfl, by omega⟩
    simp [hOrder, hFront, hMiddle]

/-- The whole text is a slice of itself. -/
theorem slice?_zero_size (s : Text) : slice? s 0 (size s) = some s :=
  slice?_eq_some_iff.mpr ⟨[], [], by simp, rfl, by simp⟩

/-! ## Small tools -/

/-- What follows `lead` in `s`, if `s` begins with it. -/
def stripLead? : (lead s : Text) → Option Text
  | [], s => some s
  | _ :: _, [] => none
  | a :: lead, c :: s => if a = c then stripLead? lead s else none

theorem stripLead?_eq_some_iff {lead s rest : Text} :
    stripLead? lead s = some rest ↔ s = lead ++ rest := by
  induction lead generalizing s with
  | nil => simp [stripLead?]
  | cons a lead ih =>
      cases s with
      | nil => simp [stripLead?]
      | cons c s =>
          by_cases hEq : a = c
          · simp [stripLead?, hEq, ih]
          · have hNe : ¬ c = a := fun h => hEq h.symm
            simp [stripLead?, hEq, hNe]

/-- The decimal digits of a number. -/
def ofNat (n : Nat) : Text := Nat.toDigits 10 n

/-- Texts put together with `glue` between neighbours. -/
def join (glue : Text) : List Text → Text
  | [] => []
  | [s] => s
  | s :: rest => s ++ glue ++ join glue rest

end Text

end ValueNames
