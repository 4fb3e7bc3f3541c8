import ValueNames.Text.Basic

/-!
# Blanks

The blank characters are those with the Unicode property White_Space. The
zero-width space and the byte order mark are not among them.

## Main results

* `isBlank_of_isWhitespace` — every blank of the ASCII rule is a blank here.
* `isBlank_of_isSpaceOrTab` — the blanks within a line are blanks.
* `trim_eq_nil_iff` — trimming leaves nothing exactly when all is blank.
-/

namespace ValueNames.Text

/-- Membership in a list of closed ranges of code points. -/
def inRanges (ranges : List (Nat × Nat)) (c : Char) : Bool :=
  ranges.any fun (first, last) => first ≤ c.toNat && c.toNat ≤ last

/-- The code points with the property White_Space. -/
def blankRanges : List (Nat × Nat) :=
  [(0x9, 0xD), (0x20, 0x20), (0x85, 0x85), (0xA0, 0xA0), (0x1680, 0x1680),
   (0x2000, 0x200A), (0x2028, 0x2029), (0x202F, 0x202F), (0x205F, 0x205F), (0x3000, 0x3000)]

/-- Whether a character is blank. -/
def isBlank (c : Char) : Bool := inRanges blankRanges c

theorem isBlank_of_isWhitespace {c : Char} (h : c.isWhitespace = true) : isBlank c = true := by
  simp only [Char.isWhitespace, Bool.or_eq_true, decide_eq_true_eq] at h
  rcases h with ((rfl | rfl) | rfl) | rfl <;> decide

/-- A space or a tab: the blanks that stay within a line. -/
def isSpaceOrTab (c : Char) : Bool := c = ' ' || c = '\t'

theorem isSpaceOrTab_iff {c : Char} : isSpaceOrTab c = true ↔ c = ' ' ∨ c = '\t' := by
  simp [isSpaceOrTab]

theorem isBlank_of_isSpaceOrTab {c : Char} (h : isSpaceOrTab c = true) : isBlank c = true := by
  rcases isSpaceOrTab_iff.mp h with rfl | rfl <;> decide

/-! ## Trimming -/

/-- The text without its leading blanks. -/
def trimStart (s : Text) : Text := s.dropWhile isBlank

/-- The text without its trailing blanks. -/
def trimEnd (s : Text) : Text := (s.reverse.dropWhile isBlank).reverse

/-- The text without blanks at either end. -/
def trim (s : Text) : Text := trimEnd (trimStart s)

/-- Whether a text has no character but blanks. -/
def allBlank (s : Text) : Bool := s.all isBlank

theorem trim_eq_nil_iff (s : Text) : trim s = [] ↔ allBlank s = true := by
  have hNil : ∀ t : Text, t.dropWhile isBlank = [] ↔ t.all isBlank = true := by
    intro t
    induction t with
    | nil => simp
    | cons c t ih =>
        by_cases hc : isBlank c = true
        · simp [hc, ih]
        · simp [hc]
  unfold trim trimEnd trimStart allBlank
  rw [List.reverse_eq_nil_iff, hNil, List.all_reverse, ← hNil s, ← hNil]
  constructor
  · intro h
    generalize hRest : s.dropWhile isBlank = rest at h
    cases rest with
    | nil => rfl
    | cons c rest =>
        have hHead := List.head_dropWhile_not isBlank (l := s) (by simp [hRest])
        simp only [hRest, List.head_cons] at hHead
        simp [hHead] at h
  · intro h
    simp [h]

/-- The first run of characters that are not blank, empty if there is none. -/
def firstWord (s : Text) : Text := (trimStart s).takeWhile fun c => !isBlank c

end ValueNames.Text
