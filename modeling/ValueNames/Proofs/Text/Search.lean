import ValueNames.Proofs.Text.Boundary
import ValueNames.Text.Search

/-!
# What a search finds

A search reads at every position that no find before it has taken. So every
find was read where it stands, and a search finds nothing only if nothing can
be read at any position.

## Main results

* `exists_read_of_mem_search` — a find was read at its place, behind the
  character that stands before it.
* `exists_head_search` — where something can be read, the first find stands
  there or before.
* `mem_search_or_inside` — where something can be read, it is found, or the
  place lies inside another find.
* `pairwise_search` — finds do not overlap.
* `search_eq_singleton` — when there is only one find.
-/

namespace ValueNames.Recogniser

variable {α : Type} {recogniser : Recogniser α}

/-- In an empty text nothing is found. -/
@[simp] theorem search_nil (recogniser : Recogniser α) : recogniser.search [] = [] := by
  rw [search, searchFrom]

/-- What a recogniser takes and what it leaves make up the text. -/
theorem take_append_of_read {before : Option Char} {s rest : Text} {a : α}
    (h : recogniser.read before s = some (a, rest)) :
    s.take (s.length - rest.length) ++ rest = s ∧ s.take (s.length - rest.length) ≠ [] := by
  have hShorter := recogniser.shorter h
  obtain ⟨front, rfl⟩ := recogniser.suffix h
  rw [List.length_append] at hShorter
  have hFront : front ≠ [] := by
    rintro rfl
    simp at hShorter
  simpa using hFront

/-- A search goes on behind what it finds. -/
theorem searchFrom_of_read {before : Option Char} {offset : Nat} {taken rest : Text} {a : α}
    (h : recogniser.read before (taken ++ rest) = some (a, rest)) :
    recogniser.searchFrom before offset (taken ++ rest) =
      (a, ⟨offset, offset + Text.size taken⟩) ::
        recogniser.searchFrom taken.getLast? (offset + Text.size taken) rest := by
  have hTake := List.append_cancel_right (take_append_of_read h).1
  have hShorter := recogniser.shorter h
  generalize hText : taken ++ rest = s at h hTake hShorter
  cases s with
  | nil => simp at hShorter
  | cons c s =>
      rw [searchFrom]
      split
      · rename_i a' rest' hRead
        rw [h, Option.some.injEq, Prod.mk.injEq] at hRead
        obtain ⟨rfl, rfl⟩ := hRead
        simp only [hTake]
      · rename_i hNone
        rw [h] at hNone
        cases hNone

/-- Where nothing can be read, a search goes on with the next character. -/
theorem searchFrom_of_none {before : Option Char} {offset : Nat} {c : Char} {s : Text}
    (h : recogniser.read before (c :: s) = none) :
    recogniser.searchFrom before offset (c :: s) =
      recogniser.searchFrom (some c) (offset + c.utf8Size) s := by
  rw [searchFrom]
  split
  · rename_i hRead
    rw [h] at hRead
    cases hRead
  · rfl

/-- Behind some text, the character before a place is the last of that text. -/
theorem getLast?_append_or {taken : Text} (h : taken ≠ []) (front : Text) (before : Option Char) :
    (taken ++ front).getLast?.or before = front.getLast?.or taken.getLast? := by
  rw [List.getLast?_append, List.getLast?_eq_some_getLast h]
  cases front.getLast? with
  | none => rfl
  | some last => rfl

theorem exists_read_of_mem_searchFrom {before : Option Char} {offset : Nat} {s : Text} {a : α}
    {span : Span} (h : (a, span) ∈ recogniser.searchFrom before offset s) :
    ∃ front taken back, s = front ++ (taken ++ back) ∧
      span = ⟨offset + Text.size front, offset + Text.size front + Text.size taken⟩ ∧
      recogniser.read (front.getLast?.or before) (taken ++ back) = some (a, back) := by
  fun_induction searchFrom recogniser before offset s with
  | case1 => simp at h
  | case2 before offset c s found rest hRead _ taken stop ih =>
      obtain ⟨hSplit, hTaken⟩ := take_append_of_read hRead
      rcases List.mem_cons.mp h with hHere | hLater
      · obtain ⟨rfl, rfl⟩ := Prod.mk.inj hHere
        refine ⟨[], taken, rest, hSplit.symm, rfl, ?_⟩
        rw [hSplit]
        exact hRead
      · obtain ⟨front, own, back, rfl, rfl, hOwn⟩ := ih hLater
        refine ⟨taken ++ front, own, back, ?_, ?_, ?_⟩
        · rw [← hSplit, List.append_assoc]
        · simp only [stop, Text.size_append, Nat.add_assoc]
        · rw [getLast?_append_or hTaken]
          exact hOwn
  | case3 before offset c s _ ih =>
      obtain ⟨front, own, back, rfl, rfl, hOwn⟩ := ih h
      refine ⟨c :: front, own, back, rfl, ?_, ?_⟩
      · simp only [Text.size_cons, Nat.add_assoc]
      · rw [← List.singleton_append, getLast?_append_or (by simp)]
        exact hOwn

/-- A find was read at its place, behind the character that stands before it. -/
theorem exists_read_of_mem_search {s : Text} {a : α} {span : Span}
    (h : (a, span) ∈ recogniser.search s) :
    ∃ front taken back, s = front ++ (taken ++ back) ∧
      span = ⟨Text.size front, Text.size front + Text.size taken⟩ ∧
      recogniser.read front.getLast? (taken ++ back) = some (a, back) := by
  obtain ⟨front, taken, back, hSplit, hSpan, hRead⟩ := exists_read_of_mem_searchFrom h
  rw [Nat.zero_add] at hSpan
  rw [Option.or_none] at hRead
  exact ⟨front, taken, back, hSplit, hSpan, hRead⟩

/-- A find ends inside the searched text. -/
theorem mem_search_stop {s : Text} {find : α × Span} (h : find ∈ recogniser.search s) :
    find.2.stop ≤ Text.size s := by
  obtain ⟨a, span⟩ := find
  obtain ⟨front, taken, back, rfl, rfl, _⟩ := exists_read_of_mem_search h
  simp only [Text.size_append]
  omega

theorem exists_head_searchFrom {before : Option Char} {offset : Nat} {front back rest : Text}
    {a : α} (h : recogniser.read (front.getLast?.or before) back = some (a, rest)) :
    ∃ first, (recogniser.searchFrom before offset (front ++ back)).head? = some first ∧
      first.2.start ≤ offset + Text.size front := by
  induction front generalizing before offset with
  | nil =>
      cases back with
      | nil =>
          have hShorter := recogniser.shorter h
          simp at hShorter
      | cons c s =>
          rw [List.nil_append, searchFrom]
          split
          · exact ⟨_, rfl, Nat.le_add_right _ _⟩
          · rename_i hNone
            rw [List.getLast?_nil, Option.none_or, hNone] at h
            cases h
  | cons c front ih =>
      rw [List.cons_append, searchFrom]
      split
      · exact ⟨_, rfl, Nat.le_add_right _ _⟩
      · have hRead : recogniser.read (front.getLast?.or (some c)) back = some (a, rest) := by
          rw [← List.singleton_append, getLast?_append_or (by simp)] at h
          exact h
        obtain ⟨first, hFirst, hStart⟩ := ih hRead
        refine ⟨first, hFirst, ?_⟩
        rw [Text.size_cons]
        omega

/-- Where something can be read, the first find stands there or before. -/
theorem exists_head_search {front back rest : Text} {a : α}
    (h : recogniser.read front.getLast? back = some (a, rest)) :
    ∃ first, (recogniser.search (front ++ back)).head? = some first ∧
      first.2.start ≤ Text.size front := by
  have hRead : recogniser.read (front.getLast?.or none) back = some (a, rest) := by
    rw [Option.or_none]
    exact h
  obtain ⟨first, hFirst, hStart⟩ := exists_head_searchFrom hRead
  exact ⟨first, hFirst, by omega⟩

/-- Where something can be read, something is found, if not the same. -/
theorem search_ne_nil {front back rest : Text} {a : α}
    (h : recogniser.read front.getLast? back = some (a, rest)) :
    recogniser.search (front ++ back) ≠ [] := by
  obtain ⟨first, hFirst, _⟩ := exists_head_search h
  intro hNone
  rw [hNone] at hFirst
  cases hFirst

/-! ## Where a search reads -/

theorem mem_searchFrom_or_inside (before : Option Char) (offset : Nat) (s : Text)
    {taken back : Text} {a : α} :
    ∀ front, s = front ++ (taken ++ back) →
      recogniser.read (front.getLast?.or before) (taken ++ back) = some (a, back) →
      (a, ⟨offset + Text.size front, offset + Text.size front + Text.size taken⟩) ∈
          recogniser.searchFrom before offset s ∨
        ∃ find ∈ recogniser.searchFrom before offset s,
          find.2.start < offset + Text.size front ∧ offset + Text.size front < find.2.stop := by
  fun_induction searchFrom recogniser before offset s with
  | case1 =>
      intro front hSplit h
      have hShorter := recogniser.shorter h
      have hLength := congrArg List.length hSplit
      simp only [List.length_append, List.length_nil] at hShorter hLength
      omega
  | case2 before offset c s found rest hRead _ own stop ih =>
      intro front hSplit h
      obtain ⟨hOwn, hSome⟩ : own ++ rest = c :: s ∧ own ≠ [] := take_append_of_read hRead
      cases front with
      | nil =>
          -- The place is that of the first find.
          rw [List.nil_append] at hSplit
          rw [List.getLast?_nil, Option.none_or, ← hSplit, hRead] at h
          obtain ⟨rfl, rfl⟩ := Prod.mk.inj (Option.some.inj h)
          obtain rfl : own = taken := List.append_cancel_right (hOwn.trans hSplit)
          exact .inl List.mem_cons_self
      | cons d front =>
          by_cases hInside : Text.size (d :: front) < Text.size own
          · have hFirst : 0 < d.utf8Size := d.utf8Size_pos
            refine .inr ⟨_, List.mem_cons_self, ?_, ?_⟩
            · simp only [Text.size_cons]
              omega
            · simp only [stop]
              omega
          · obtain ⟨middle, hFront, hRest⟩ :=
              Text.exists_append_of_size_le hOwn.symm hSplit (by omega)
            rw [hFront, getLast?_append_or hSome] at h
            have hSize : offset + Text.size (d :: front) = stop + Text.size middle := by
              rw [hFront, Text.size_append]
              omega
            rw [hSize]
            rcases ih middle hRest h with hFind | ⟨find, hFind, hAround⟩
            · exact .inl (List.mem_cons_of_mem _ hFind)
            · exact .inr ⟨find, List.mem_cons_of_mem _ hFind, hAround⟩
  | case3 before offset c s hNone ih =>
      intro front hSplit h
      cases front with
      | nil =>
          rw [List.nil_append] at hSplit
          rw [List.getLast?_nil, Option.none_or, ← hSplit, hNone] at h
          cases h
      | cons d front =>
          obtain ⟨rfl, hRest⟩ := List.cons_eq_cons.mp hSplit
          rw [← List.singleton_append, getLast?_append_or (by simp)] at h
          rw [Text.size_cons, ← Nat.add_assoc]
          exact ih front hRest h

/-- Where something can be read, it is found, or the place lies inside another find. -/
theorem mem_search_or_inside {front taken back : Text} {a : α}
    (h : recogniser.read front.getLast? (taken ++ back) = some (a, back)) :
    (a, ⟨Text.size front, Text.size front + Text.size taken⟩) ∈
        recogniser.search (front ++ (taken ++ back)) ∨
      ∃ find ∈ recogniser.search (front ++ (taken ++ back)),
        find.2.start < Text.size front ∧ Text.size front < find.2.stop := by
  have hRead : recogniser.read (front.getLast?.or none) (taken ++ back) = some (a, back) := by
    rw [Option.or_none]
    exact h
  have hFinds := mem_searchFrom_or_inside none 0 _ front rfl hRead
  rw [Nat.zero_add] at hFinds
  exact hFinds

theorem pairwise_searchFrom (before : Option Char) (offset : Nat) (s : Text) :
    (recogniser.searchFrom before offset s).Pairwise fun a b => a.2.stop ≤ b.2.start := by
  fun_induction searchFrom recogniser before offset s with
  | case1 => exact List.Pairwise.nil
  | case2 before offset c s found rest hRead _ own stop ih =>
      refine List.pairwise_cons.mpr ⟨?_, ih⟩
      intro find hFind
      exact (mem_searchFrom_start hFind).1
  | case3 before offset c s _ ih => exact ih

/-- Finds do not overlap. -/
theorem pairwise_search (recogniser : Recogniser α) (s : Text) :
    (recogniser.search s).Pairwise fun a b => a.2.stop ≤ b.2.start :=
  pairwise_searchFrom none 0 s

/-- No find begins inside another one. -/
theorem not_inside_of_mem_search {s : Text} {find other : α × Span}
    (hFind : find ∈ recogniser.search s) (hOther : other ∈ recogniser.search s) :
    ¬ (other.2.start < find.2.start ∧ find.2.start < other.2.stop) := by
  rintro ⟨hStart, hStop⟩
  obtain ⟨_, taken, _, _, hSpan, _⟩ := exists_read_of_mem_search hFind
  have hOrder : find.2.start ≤ find.2.stop := by
    rw [hSpan]
    exact Nat.le_add_right _ _
  obtain ⟨front, back, hSplit⟩ := List.append_of_mem hFind
  have hPairs := recogniser.pairwise_search s
  rw [hSplit] at hPairs hOther
  obtain ⟨_, hBack, hFront⟩ := List.pairwise_append.mp hPairs
  rcases List.mem_append.mp hOther with hBefore | hBehind
  · have hApart := hFront other hBefore find List.mem_cons_self
    omega
  · rcases List.mem_cons.mp hBehind with rfl | hBehind
    · omega
    · have hApart := (List.pairwise_cons.mp hBack).1 other hBehind
      omega

/-! ## Texts in which nothing can be read -/

/-- Where nothing can be read in the first of two texts, a search goes on with the second. -/
theorem searchFrom_append_of_none {front back : Text}
    (h : ∀ s, s <:+ front → s ≠ [] → ∀ before, recogniser.read before (s ++ back) = none)
    (before : Option Char) (offset : Nat) :
    recogniser.searchFrom before offset (front ++ back) =
      recogniser.searchFrom (front.getLast?.or before) (offset + Text.size front) back := by
  induction front generalizing before offset with
  | nil => rfl
  | cons c front ih =>
      have hHere : recogniser.read before (c :: (front ++ back)) = none :=
        h (c :: front) (List.suffix_refl _) (List.cons_ne_nil _ _) before
      have hRest : ∀ s, s <:+ front → s ≠ [] → ∀ before,
          recogniser.read before (s ++ back) = none :=
        fun s hSuffix => h s (hSuffix.trans (List.suffix_cons c front))
      have hLast : front.getLast?.or (some c) = (c :: front).getLast?.or before := by
        rw [← List.singleton_append, getLast?_append_or (List.cons_ne_nil c [])]
        rfl
      rw [List.cons_append, searchFrom_of_none hHere, ih hRest, hLast, Text.size_cons,
        Nat.add_assoc]

/-- If nothing can be read before and behind what is read, it is the only find. -/
theorem search_eq_singleton {front taken back : Text} {a : α}
    (hFront : ∀ s, s <:+ front → s ≠ [] → ∀ before,
      recogniser.read before (s ++ (taken ++ back)) = none)
    (h : recogniser.read front.getLast? (taken ++ back) = some (a, back))
    (hBack : ∀ s, s <:+ back → s ≠ [] → ∀ before, recogniser.read before s = none) :
    recogniser.search (front ++ (taken ++ back)) =
      [(a, ⟨Text.size front, Text.size front + Text.size taken⟩)] := by
  have hNone : ∀ s, s <:+ back → s ≠ [] → ∀ before,
      recogniser.read before (s ++ []) = none := by
    intro s hSuffix hSome before
    rw [List.append_nil]
    exact hBack s hSuffix hSome before
  have hBehind : ∀ before offset, recogniser.searchFrom before offset back = [] := by
    intro before offset
    have hRest := searchFrom_append_of_none hNone before offset
    rw [List.append_nil] at hRest
    rw [hRest, searchFrom]
  rw [search, searchFrom_append_of_none hFront, Option.or_none, searchFrom_of_read h, hBehind,
    Nat.zero_add]

end ValueNames.Recogniser
