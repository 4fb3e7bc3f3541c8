import ValueNames.Proofs.Item.Returns
import ValueNames.Proofs.Text.Search

/-!
# Searches and carriage returns

If nothing that is searched for begins at a line end, and each piece is read the same without
its carriage returns, then a search finds the same without the carriage returns of the whole
text, and finds it where it stands there.

## Main results

* `Recogniser.Blind.search_bare` — a search finds the same without carriage returns.
* `Recogniser.Blind.isSolid_start` — nothing is found before a carriage return.
-/

namespace ValueNames

open Text

/--
A recogniser begins at no line end, and reads the same without carriage returns, but for
those inside of what it reads.
-/
structure Recogniser.Blind {α : Type} (recogniser : Recogniser α) (g : α → α) : Prop where
  read_return : ∀ before s, recogniser.read before ('\r' :: s) = none
  read_newline : ∀ before s, recogniser.read before ('\n' :: s) = none
  read_bare : ∀ before {s}, Paired s →
    recogniser.read before (bare s) =
      (recogniser.read before s).map fun (a, rest) => (g a, bare rest)

namespace Recogniser.Blind

variable {α : Type} {recogniser : Recogniser α} {g : α → α}

/-- A search need not know the character before a line feed. -/
theorem searchFrom_bare (hBlind : recogniser.Blind g) {source front s : Text}
    (hSource : source = front ++ s) (h : Paired s) {before before' : Option Char}
    (hBefore : before' = before ∨ s.head? = some '\n') :
    recogniser.searchFrom before' (size (bare front)) (bare s) =
      (recogniser.searchFrom before (size front) s).map
        fun (a, span) => (g a, span.bareIn source) := by
  generalize hLength : s.length = length
  induction length using Nat.strongRecOn generalizing front s before before' with
  | ind length ih =>
      cases h with
      | nil => rw [bare_nil, searchFrom, searchFrom, List.map_nil]
      | @lineEnd s hs =>
          have hSplit : source = front ++ ['\r'] ++ '\n' :: s := by simp [hSource]
          have hNext : before' = some '\r' ∨ ('\n' :: s).head? = some '\n' := .inr rfl
          have hLater := ih ('\n' :: s).length (by simp [← hLength]) hSplit
            (hs.char (by decide)) hNext rfl
          rw [searchFrom_of_none (hBlind.read_return before _), bare_return]
          rw [bare_append, size_append, size_append] at hLater
          exact hLater
      | @char c s hc hs =>
          have hRead : recogniser.read before' (c :: bare s) =
              (recogniser.read before (c :: s)).map fun (a, rest) => (g a, bare rest) := by
            rcases hBefore with rfl | hFeed
            · rw [← bare_cons hc, hBlind.read_bare _ (hs.char hc)]
            · obtain rfl : c = '\n' := by simpa using hFeed
              rw [hBlind.read_newline, hBlind.read_newline]
              rfl
          cases hFound : recogniser.read before (c :: s) with
          | none =>
              rw [hFound, Option.map_none] at hRead
              have hSplit : source = front ++ [c] ++ s := by simp [hSource]
              have hNext : some c = some c ∨ s.head? = some '\n' := .inl rfl
              have hLater := ih s.length (by simp [← hLength]) hSplit hs hNext rfl
              simp only [bare_append, bare_cons hc, bare_nil, size_append, size_cons, size_nil,
                Nat.add_zero] at hLater
              rw [bare_cons hc, searchFrom_of_none hFound, searchFrom_of_none hRead]
              exact hLater
          | some found =>
              obtain ⟨a, rest⟩ := found
              rw [hFound, Option.map_some] at hRead
              obtain ⟨taken, hTaken⟩ := recogniser.suffix hFound
              have hLess := recogniser.shorter hFound
              have hPaired : Paired (taken ++ rest) := hTaken ▸ hs.char hc
              have hSplit : source = front ++ taken ++ rest := by simp [hSource, ← hTaken]
              have hLater := ih rest.length (hLength ▸ hLess) hSplit hPaired.of_append_right
                hPaired.getLast?_bare rfl
              have hStart := bareOffset_size front (taken ++ rest)
              have hStop := bareOffset_size (front ++ taken) rest
              rw [← List.append_assoc, ← hSplit] at hStart
              rw [← hSplit, bare_append, size_append, size_append] at hStop
              rw [← bare_cons hc, ← hTaken, bare_append] at hRead
              rw [← hTaken] at hFound
              rw [bare_append, size_append, size_append] at hLater
              rw [← hTaken, bare_append, searchFrom_of_read hFound, searchFrom_of_read hRead,
                hLater]
              show _ = (g a, Span.mk (bareOffset source _) (bareOffset source _)) :: _
              rw [hStart, hStop]

/-- A search finds the same without carriage returns. -/
theorem search_bare (hBlind : recogniser.Blind g) {s : Text} (h : Paired s) :
    recogniser.search (bare s) =
      (recogniser.search s).map fun (a, span) => (g a, span.bareIn s) := by
  have hSource : s = [] ++ s := rfl
  exact hBlind.searchFrom_bare hSource h (.inl rfl)

/-- Nothing is found before a carriage return. -/
theorem isSolid_start (hBlind : recogniser.Blind g) {s : Text} {a : α} {span : Span}
    (h : (a, span) ∈ recogniser.search s) : IsSolid s span.start := by
  obtain ⟨front, taken, back, rfl, rfl, hRead⟩ := exists_read_of_mem_search h
  cases taken with
  | nil => exact absurd (recogniser.shorter hRead) (Nat.lt_irrefl _)
  | cons c taken =>
      refine ⟨front, c, taken ++ back, rfl, ?_, rfl⟩
      rintro rfl
      rw [List.cons_append, hBlind.read_return] at hRead
      cases hRead

end Recogniser.Blind

end ValueNames
