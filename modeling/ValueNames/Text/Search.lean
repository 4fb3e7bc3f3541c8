import ValueNames.Span

/-!
# Searching a text

A recogniser reads something off the front of a text, knowing the character
before it. A search applies it at every position from left to right; after a
find it goes on behind the text taken, so finds never overlap.

## Main results

* `mem_search_start` — everything found starts inside the searched text.
-/

namespace ValueNames

/--
Reads a value off the front of a text, given the character before it, and
returns the rest. Something is taken whenever a value is read.
-/
structure Recogniser (α : Type) where
  read : Option Char → Text → Option (α × Text)
  suffix : ∀ {before s a rest}, read before s = some (a, rest) → rest <:+ s
  shorter : ∀ {before s a rest}, read before s = some (a, rest) → rest.length < s.length

namespace Recogniser

variable {α : Type}

/-- All finds in a text that starts at `offset` and follows the character `before`. -/
def searchFrom (recogniser : Recogniser α) (before : Option Char) (offset : Nat) :
    Text → List (α × Span)
  | [] => []
  | c :: s =>
      match h : recogniser.read before (c :: s) with
      | some (a, rest) =>
          have := recogniser.shorter h
          let taken := (c :: s).take ((c :: s).length - rest.length)
          let stop := offset + Text.size taken
          (a, ⟨offset, stop⟩) :: recogniser.searchFrom taken.getLast? stop rest
      | none => recogniser.searchFrom (some c) (offset + c.utf8Size) s
termination_by s => s.length
decreasing_by
  · exact this
  · exact Nat.lt_succ_self _

/-- All finds in a text, each with its span. -/
def search (recogniser : Recogniser α) (s : Text) : List (α × Span) :=
  recogniser.searchFrom none 0 s

theorem mem_searchFrom_start {recogniser : Recogniser α} {before : Option Char} {offset : Nat}
    {s : Text} {find : α × Span} (h : find ∈ recogniser.searchFrom before offset s) :
    offset ≤ find.2.start ∧ find.2.start < offset + Text.size s := by
  fun_induction searchFrom recogniser before offset s with
  | case1 => simp at h
  | case2 before offset c s a rest hRead _ taken stop ih =>
      have hc : 0 < c.utf8Size := c.utf8Size_pos
      rcases List.mem_cons.mp h with rfl | h
      · simp only [Text.size_cons]
        omega
      · have hSplit : taken ++ rest = c :: s := by
          obtain ⟨front, hFront⟩ := recogniser.suffix hRead
          have hTake : taken = front := by
            simp only [taken, ← hFront, List.length_append, Nat.add_sub_cancel]
            simp
          rw [hTake, hFront]
        have hSize := congrArg Text.size hSplit
        simp only [Text.size_append] at hSize
        have hBounds := ih h
        omega
  | case3 before offset c s hRead ih =>
      have hc : 0 < c.utf8Size := c.utf8Size_pos
      have hBounds := ih h
      simp only [Text.size_cons]
      omega

theorem mem_search_start {recogniser : Recogniser α} {s : Text} {find : α × Span}
    (h : find ∈ recogniser.search s) : find.2.start < Text.size s := by
  have hBounds := mem_searchFrom_start h
  omega

end Recogniser

end ValueNames
