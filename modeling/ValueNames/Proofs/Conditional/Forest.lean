import ValueNames.Proofs.Conditional.Placement

/-!
# The forest of branches

The conditional blocks of a source are nested, and so are the branches they
consist of. This module reads the directive lines of a source as a forest of
branches by a grammar, apart from any stack, and says which sequences of
lines have such a reading.

A scope is what remains of a branch when its place in the forest is
forgotten: the block and the offset at which it ends.

## Main results

* `Forest.exists_isOf_iff` — exactly the balanced sequences of directive
  lines read as a forest.
* `Forest.Reads.unique` — they do so in one way.
* `Forest.Reads.within` — the branches of a forest are nested in the source.
-/

namespace ValueNames

/-! ## Scopes and forests -/

/-- A branch of a conditional block, from its opening line to the line that closes it. -/
structure Scope where
  block : Block
  /-- The start of the line that closes the branch. -/
  closedAt : Nat
deriving DecidableEq, Repr

namespace Scope

/-- The text of a branch, between its opening and its closing line. -/
def region (scope : Scope) : Span := ⟨scope.block.opened.stop, scope.closedAt⟩

/-- Whether the text of a branch holds a span. -/
def covers (scope : Scope) (span : Span) : Bool :=
  scope.region.start ≤ span.start && span.stop ≤ scope.region.stop

theorem covers_iff {scope : Scope} {span : Span} :
    scope.covers span = true ↔
      scope.region.start ≤ span.start ∧ span.stop ≤ scope.region.stop := by
  rw [covers, Bool.and_eq_true, decide_eq_true_eq, decide_eq_true_eq]

end Scope

/--
The branches at one level of a source, each with the branches inside it. An
`#else` branch stands beside the branch before it.
-/
inductive Forest
  | nil
  | branch (block : Block) (inside : Forest) (closer : Closer) (closed : Span) (after : Forest)
deriving Repr

/-- The branch that is open behind the line that closes another one. -/
def Closer.next (closer : Closer) (closed : Span) (block : Block) : Option Block :=
  match closer with
  | .alternative => some (block.alternative closed)
  | .final => none

/-- The line that closes a branch opens the next one. -/
theorem Closer.opened_of_mem_next {closer : Closer} {closed : Span} {block next : Block}
    (h : next ∈ closer.next closed block) : next.opened = closed := by
  cases closer with
  | alternative =>
      cases h
      rfl
  | final => cases h

namespace Forest

/-- The scopes of a forest in the order of their opening lines. -/
def scopes : Forest → List Scope
  | nil => []
  | branch block inside _ closed after => ⟨block, closed.start⟩ :: (inside.scopes ++ after.scopes)

/-! ## The grammar -/

/--
`Reads first lines forest rest`: what stands at the front of `lines` is the
forest, and `rest` is what follows it. With a branch given as `first`, the
lines begin inside that branch, and it is the first of the forest.
-/
inductive Reads : Option Block → List DirectiveLine → Forest → List DirectiveLine → Prop
  /-- No branch opens here. -/
  | stop {lines : List DirectiveLine}
      (hStop : ∀ line ∈ lines.head?, ∃ closer, line.directive = .closes closer) :
      Reads none lines nil lines
  | opens {line : DirectiveLine} {lines rest : List DirectiveLine} {forest : Forest}
      {opener : Opener} (hOpens : line.directive = .opens opener)
      (hFirst : Reads (some ⟨⟨opener, line.condition⟩, line.span⟩) lines forest rest) :
      Reads none (line :: lines) forest rest
  | closes {block : Block} {lines between rest : List DirectiveLine} {line : DirectiveLine}
      {inside after : Forest} {closer : Closer}
      (hInside : Reads none lines inside (line :: between))
      (hCloses : line.directive = .closes closer)
      (hAfter : Reads (closer.next line.span block) between after rest) :
      Reads (some block) lines (branch block inside closer line.span after) rest

/-- Whether a forest is the reading of all the lines. -/
def IsOf (lines : List DirectiveLine) (forest : Forest) : Prop := Reads none lines forest []

/-- The open branch is the first of the forest. -/
theorem Reads.eq_branch {block : Block} {lines rest : List DirectiveLine} {forest : Forest}
    (h : Reads (some block) lines forest rest) :
    ∃ inside closer closed after, forest = branch block inside closer closed after := by
  cases h with
  | closes hInside hCloses hAfter => exact ⟨_, _, _, _, rfl⟩

/-- Lines are read in only one way. -/
theorem Reads.unique {first : Option Block} {lines rest rest' : List DirectiveLine}
    {forest forest' : Forest} (h : Reads first lines forest rest)
    (h' : Reads first lines forest' rest') : forest = forest' ∧ rest = rest' := by
  induction h generalizing forest' rest' with
  | stop hStop =>
      cases h' with
      | stop _ => exact ⟨rfl, rfl⟩
      | opens hOpens _ =>
          obtain ⟨closer, hCloses⟩ := hStop _ rfl
          rw [hOpens] at hCloses
          cases hCloses
  | opens hOpens _ ih =>
      cases h' with
      | stop hStop =>
          obtain ⟨closer, hCloses⟩ := hStop _ rfl
          rw [hOpens] at hCloses
          cases hCloses
      | opens hOpens' hFirst' =>
          rw [hOpens] at hOpens'
          cases hOpens'
          exact ih hFirst'
  | closes _ hCloses _ ihInside ihAfter =>
      cases h' with
      | closes hInside' hCloses' hAfter' =>
          obtain ⟨rfl, hLines⟩ := ihInside hInside'
          cases hLines
          rw [hCloses] at hCloses'
          cases hCloses'
          obtain ⟨rfl, rfl⟩ := ihAfter hAfter'
          exact ⟨rfl, rfl⟩

end Forest

/-! ## Balanced lines -/

namespace Conditional

/--
The lines behind which a branch is open when all lines are read, innermost
first, given those before; or the first closing line at which none is open.
-/
def openLines (opened : List DirectiveLine) :
    List DirectiveLine → Except DirectiveLine (List DirectiveLine)
  | [] => .ok opened
  | line :: rest =>
      match line.directive, opened with
      | .opens _, _ => openLines (line :: opened) rest
      | .closes _, [] => .error line
      | .closes .alternative, _ :: outer => openLines (line :: outer) rest
      | .closes .final, _ :: outer => openLines outer rest

/-- Every closing line finds an open branch, and none is open at the end. -/
def Balanced (lines : List DirectiveLine) : Prop := openLines [] lines = .ok []

instance (lines : List DirectiveLine) : Decidable (Balanced lines) :=
  match h : openLines [] lines with
  | .ok [] => isTrue h
  | .ok (_ :: _) => isFalse (by simp [Balanced, h])
  | .error _ => isFalse (by simp [Balanced, h])

/-- The lines reported are among those read. -/
theorem mem_of_openLines_error {opened lines : List DirectiveLine} {line : DirectiveLine}
    (h : openLines opened lines = .error line) : line ∈ lines := by
  induction lines generalizing opened with
  | nil => cases h
  | cons first rest ih =>
      unfold openLines at h
      split at h
      · exact List.mem_cons_of_mem _ (ih h)
      · cases h
        exact List.mem_cons_self
      · exact List.mem_cons_of_mem _ (ih h)
      · exact List.mem_cons_of_mem _ (ih h)

theorem mem_of_openLines_ok {opened lines remaining : List DirectiveLine} {line : DirectiveLine}
    (h : openLines opened lines = .ok remaining) (hLine : line ∈ remaining) :
    line ∈ opened ∨ line ∈ lines := by
  induction lines generalizing opened with
  | nil =>
      cases h
      exact .inl hLine
  | cons first rest ih =>
      unfold openLines at h
      split at h
      · rcases ih h with hMem | hMem
        · rcases List.mem_cons.mp hMem with rfl | hMem
          · exact .inr List.mem_cons_self
          · exact .inl hMem
        · exact .inr (List.mem_cons_of_mem _ hMem)
      · cases h
      · rcases ih h with hMem | hMem
        · rcases List.mem_cons.mp hMem with rfl | hMem
          · exact .inr List.mem_cons_self
          · exact .inl (List.mem_cons_of_mem _ hMem)
        · exact .inr (List.mem_cons_of_mem _ hMem)
      · rcases ih h with hMem | hMem
        · exact .inl (List.mem_cons_of_mem _ hMem)
        · exact .inr (List.mem_cons_of_mem _ hMem)

end Conditional

namespace Forest

open Conditional

/-- What is read as a forest leaves the branches around it open. -/
theorem Reads.openLines_append {first : Option Block} {lines rest : List DirectiveLine}
    {forest : Forest} (h : Reads first lines forest rest) (inner outer : List DirectiveLine)
    (hInner : inner.length = first.toList.length) :
    openLines (inner ++ outer) lines = openLines outer rest := by
  induction h generalizing inner outer with
  | stop _ =>
      obtain rfl := List.eq_nil_of_length_eq_zero hInner
      rfl
  | @opens line lines rest forest opener hOpens _ ih =>
      obtain rfl := List.eq_nil_of_length_eq_zero hInner
      have hFirst := ih [line] outer rfl
      simpa [openLines, hOpens] using hFirst
  | @closes block lines between rest line inside after closer _ hCloses _ ihInside ihAfter =>
      obtain ⟨top, rfl⟩ := List.length_eq_one_iff.mp hInner
      have hInside := ihInside [] (top :: outer) rfl
      rw [List.nil_append] at hInside
      rw [List.singleton_append, hInside]
      cases closer with
      | alternative =>
          have hAfter := ihAfter [line] outer rfl
          simpa [openLines, hCloses] using hAfter
      | final =>
          have hAfter := ihAfter [] outer rfl
          simpa [openLines, hCloses] using hAfter

/-- What follows a forest is a closing line, or nothing. -/
theorem Reads.head_rest {first : Option Block} {lines rest : List DirectiveLine} {forest : Forest}
    (h : Reads first lines forest rest) :
    ∀ line ∈ rest.head?, ∃ closer, line.directive = .closes closer := by
  induction h with
  | stop hStop => exact hStop
  | opens _ _ ih => exact ih
  | closes _ _ _ _ ihAfter => exact ihAfter

/-!
Lines that close all open branches can be read. Read as a forest, they are
used up to the line that closes the innermost branch, and read with that
branch as the first of a forest, up to the line that closes the next one.
-/

mutual

theorem exists_reads_none (lines opened : List DirectiveLine)
    (h : openLines opened lines = .ok []) :
    ∃ forest rest, Reads none lines forest rest ∧ rest.length ≤ lines.length ∧
      openLines opened rest = .ok [] := by
  match lines with
  | [] => exact ⟨nil, [], .stop (by simp), Nat.le_refl _, h⟩
  | line :: tail =>
      match hLine : line.directive with
      | .closes closer =>
          exact ⟨nil, line :: tail, .stop (by simp [hLine]), Nat.le_refl _, h⟩
      | .opens opener =>
          simp only [openLines, hLine] at h
          obtain ⟨forest, rest, hFirst, hLess, hRest⟩ :=
            exists_reads_some tail line opened ⟨⟨opener, line.condition⟩, line.span⟩ h
          exact ⟨forest, rest, .opens hLine hFirst, by simp; omega, hRest⟩
termination_by (lines.length, 0)

theorem exists_reads_some (lines : List DirectiveLine) (top : DirectiveLine)
    (outer : List DirectiveLine) (block : Block) (h : openLines (top :: outer) lines = .ok []) :
    ∃ forest rest, Reads (some block) lines forest rest ∧ rest.length < lines.length ∧
      openLines outer rest = .ok [] := by
  obtain ⟨inside, closing, hInside, hLess, hClosing⟩ := exists_reads_none lines (top :: outer) h
  match closing with
  | [] => simp [openLines] at hClosing
  | line :: between =>
      obtain ⟨closer, hCloses⟩ := hInside.head_rest line rfl
      simp only [List.length_cons] at hLess
      cases closer with
      | alternative =>
          simp only [openLines, hCloses] at hClosing
          obtain ⟨after, rest, hAfter, hShorter, hRest⟩ :=
            exists_reads_some between line outer (block.alternative line.span) hClosing
          exact ⟨_, rest, .closes hInside hCloses hAfter, by omega, hRest⟩
      | final =>
          simp only [openLines, hCloses] at hClosing
          obtain ⟨after, rest, hAfter, hShorter, hRest⟩ :=
            exists_reads_none between outer hClosing
          exact ⟨_, rest, .closes hInside hCloses hAfter, by omega, hRest⟩
termination_by (lines.length, 1)

end

/-- Exactly the balanced sequences of directive lines read as a forest. -/
theorem exists_isOf_iff {lines : List DirectiveLine} :
    (∃ forest, IsOf lines forest) ↔ Balanced lines := by
  constructor
  · rintro ⟨forest, hForest⟩
    exact hForest.openLines_append [] [] rfl
  · intro hBalanced
    obtain ⟨forest, rest, hForest, _, hRest⟩ := exists_reads_none lines [] hBalanced
    match rest with
    | [] => exact ⟨forest, hForest⟩
    | line :: rest =>
        obtain ⟨closer, hCloses⟩ := hForest.head_rest line rfl
        simp [openLines, hCloses] at hRest

/-! ## The place of the branches -/

/--
The branches of a forest stand between two offsets, one behind the other,
and what is inside a branch stands between its opening and its closing line.
-/
def Within (low high : Nat) : Forest → Prop
  | nil => True
  | branch block inside _ closed after =>
      low ≤ block.opened.start ∧ block.opened.start < block.opened.stop ∧
        block.opened.stop ≤ closed.start ∧ closed.start < closed.stop ∧ closed.stop ≤ high ∧
        inside.Within block.opened.stop closed.start ∧ after.Within closed.start high

theorem Within.mono {low high low' high' : Nat} {forest : Forest} (h : forest.Within low high)
    (hLow : low' ≤ low) (hHigh : high ≤ high') : forest.Within low' high' := by
  induction forest generalizing low low' with
  | nil => trivial
  | branch block inside closer closed after _ ihAfter =>
      obtain ⟨hStart, hOpened, hRegion, hClosed, hStop, hInside, hAfter⟩ := h
      exact ⟨by omega, hOpened, hRegion, hClosed, by omega, hInside,
        ihAfter hAfter (Nat.le_refl _)⟩

/--
The branches of a forest that is read off spaced lines are nested, and stand
before the lines that follow.
-/
theorem Reads.within {source : Text} {first : Option Block} {lines rest : List DirectiveLine}
    {forest : Forest} (h : Reads first lines forest rest) {bound : Nat}
    (hLines : Spaced source bound lines)
    (hFirst : ∀ block ∈ first, block.opened.start < block.opened.stop ∧ block.opened.stop ≤ bound) :
    ∃ behind, bound ≤ behind ∧ Spaced source behind rest ∧ ∀ high, behind ≤ high →
      forest.Within (first.elim bound (·.opened.start)) high := by
  induction h generalizing bound with
  | stop _ => exact ⟨bound, Nat.le_refl _, hLines, fun _ _ => trivial⟩
  | @opens line lines rest forest opener _ _ ih =>
      obtain ⟨hBound, hStands, hRest⟩ := hLines
      have hOwn := hStands.start_lt_stop
      obtain ⟨behind, hBehind, hSpaced, hWithin⟩ := ih hRest (by simpa using hOwn)
      refine ⟨behind, by omega, hSpaced, fun high hHigh => ?_⟩
      exact (hWithin high hHigh).mono hBound (Nat.le_refl _)
  | @closes block lines between rest line inside after closer _ _ _ ihInside ihAfter =>
      obtain ⟨hOpened, hStop⟩ := hFirst block rfl
      obtain ⟨middle, hMiddle, ⟨hLine, hStands, hBetween⟩, hInside⟩ := ihInside hLines (by simp)
      have hOwn := hStands.start_lt_stop
      have hNext : ∀ next ∈ closer.next line.span block,
          next.opened.start < next.opened.stop ∧ next.opened.stop ≤ line.span.stop := by
        intro next hNext
        rw [Closer.opened_of_mem_next hNext]
        exact ⟨hOwn, Nat.le_refl _⟩
      obtain ⟨behind, hBehind, hSpaced, hAfter⟩ := ihAfter hBetween hNext
      refine ⟨behind, by omega, hSpaced, fun high hHigh => ?_⟩
      have hLow : line.span.start ≤
          (closer.next line.span block).elim line.span.stop (·.opened.start) := by
        cases closer with
        | alternative => exact Nat.le_refl _
        | final => exact Nat.le_of_lt hOwn
      exact ⟨Nat.le_refl _, hOpened, by omega, hOwn, by omega,
        (hInside line.span.start hLine).mono hStop (Nat.le_refl _),
        (hAfter high hHigh).mono hLow (Nat.le_refl _)⟩

/-- The branches of the forest of a source are nested in the source. -/
theorem IsOf.within {source : Text} {forest : Forest}
    (h : IsOf (directiveLines source) forest) : ∃ high, forest.Within 0 high := by
  obtain ⟨behind, _, _, hWithin⟩ := Reads.within h (spaced_directiveLines source) (by simp)
  exact ⟨behind, hWithin behind (Nat.le_refl _)⟩

theorem Reads.suffix {first : Option Block} {lines rest : List DirectiveLine} {forest : Forest}
    (h : Reads first lines forest rest) : rest <:+ lines := by
  induction h with
  | stop _ => exact List.suffix_rfl
  | opens _ _ ih => exact ih.trans (List.suffix_cons _ _)
  | closes _ _ _ ihInside ihAfter =>
      exact ihAfter.trans ((List.suffix_cons _ _).trans ihInside)

/-- A scope is opened and closed by lines that were read. -/
theorem Reads.lines_of_mem_scopes {first : Option Block} {lines rest all : List DirectiveLine}
    {forest : Forest} (h : Reads first lines forest rest)
    (hFirst : ∀ block ∈ first, ∃ line ∈ all, line.span = block.opened) (hLines : lines ⊆ all)
    {scope : Scope} (hScope : scope ∈ forest.scopes) :
    (∃ line ∈ all, line.span = scope.block.opened) ∧
      ∃ line ∈ all, line.span.start = scope.closedAt := by
  induction h with
  | stop _ => simp [scopes] at hScope
  | @opens line lines rest forest opener _ _ ih =>
      refine ih ?_ (List.subset_of_cons_subset hLines) hScope
      simpa using ⟨line, hLines (by simp), rfl⟩
  | @closes block lines between rest line inside after closer hInside _ _ ihInside ihAfter =>
      have hRest : line :: between ⊆ all := List.Subset.trans hInside.suffix.subset hLines
      have hLine : line ∈ all := hRest (by simp)
      simp only [scopes, List.mem_cons, List.mem_append] at hScope
      rcases hScope with rfl | hScope | hScope
      · exact ⟨hFirst block rfl, line, hLine, rfl⟩
      · exact ihInside (by simp) hLines hScope
      · refine ihAfter ?_ (List.subset_of_cons_subset hRest) hScope
        intro next hNext
        exact ⟨line, hLine, (Closer.opened_of_mem_next hNext).symm⟩

end Forest

end ValueNames
