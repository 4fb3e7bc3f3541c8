import ValueNames.Proofs.Conditional.Forest

/-!
# What is compiled

Whether text between directive lines is compiled depends on the truth of the
conditions that are open there. This module reads directive lines the way a
preprocessor does, with a stack of truth values, and compares this with the
forest: the values on the stack are those of the guards of the scopes around.

## Main results

* `Guard.ofOpening?_opening`, `Guard.opening_injective` — the opening line of a guard tells the
  guard.
* `Forest.Reads.openBlocks_filter` — the branches open before an offset are
  those of the forest that stand around it.
* `Forest.Within.enclosing_eq_covering` — the scopes around the start of a span are those
  that hold it, if none straddles it.
* `compiled_eq_all_enclosing` — text is compiled exactly when all the guards around it hold.
-/

namespace ValueNames

/-! ## Conditions -/

namespace Guard

/-- A truth assignment to conditions that respects the meaning of `#ifndef` and of `!( )`. -/
structure Lawful (holds : Guard → Bool) : Prop where
  undefined : ∀ condition, holds ⟨.undefined, condition⟩ = !holds ⟨.defined, condition⟩
  negation : ∀ condition, holds ⟨.expression, "!( ".toList ++ condition ++ " )".toList⟩ =
    !holds ⟨.expression, condition⟩

/-- The complement of a guard holds where the guard does not. -/
theorem Lawful.complement {holds : Guard → Bool} (h : Lawful holds) (guard : Guard) :
    holds guard.complement = !holds guard := by
  obtain ⟨opener, condition⟩ := guard
  cases opener with
  | expression => exact h.negation condition
  | defined => exact h.undefined condition
  | undefined =>
      show holds ⟨.defined, condition⟩ = !holds ⟨.undefined, condition⟩
      rw [h.undefined, Bool.not_not]

/-- Whichever macros are defined, the other conditions can be given truth values. -/
theorem exists_lawful (defined : Text → Bool) :
    ∃ holds, Lawful holds ∧ ∀ condition, holds ⟨.defined, condition⟩ = defined condition := by
  -- A negation is five characters longer than its condition.
  refine ⟨fun guard =>
    if guard.opener = .expression then guard.condition.length % 2 = 0
    else if guard.opener = .defined then defined guard.condition
    else !defined guard.condition, ⟨fun _ => rfl, fun condition => ?_⟩, fun _ => rfl⟩
  have hLength : ("!( ".toList ++ condition ++ " )".toList).length = condition.length + 5 := by
    rw [List.length_append, List.length_append]
    show 3 + condition.length + 2 = condition.length + 5
    omega
  show decide (_ % 2 = 0) = !decide (condition.length % 2 = 0)
  rw [hLength, Bool.eq_iff_iff, Bool.not_eq_true', decide_eq_true_eq, decide_eq_false_iff_not]
  omega

/-- The guard that an opening line is written for. -/
def ofOpening? (line : Text) : Option Guard :=
  [Opener.expression, .defined, .undefined].findSome? fun opener =>
    (Text.stripLead? ('#' :: opener.word ++ [' ']) line).map (⟨opener, ·⟩)

/-- The opening line of a guard tells the guard. -/
theorem ofOpening?_opening (guard : Guard) : ofOpening? guard.opening = some guard := by
  obtain ⟨opener, condition⟩ := guard
  cases opener with
  | expression => rfl
  | defined => rfl
  | undefined => rfl

theorem opening_injective : Function.Injective opening := by
  intro guard other h
  have hSame := congrArg ofOpening? h
  rw [ofOpening?_opening, ofOpening?_opening] at hSame
  exact Option.some.inj hSame

end Guard

/-! ## Reading with truth values -/

namespace Conditional

/--
The truth values of the open conditions behind some directive lines, innermost
first. An `#else` turns the innermost one around.
-/
def truths (holds : Guard → Bool) (values : List Bool) : List DirectiveLine → List Bool
  | [] => values
  | line :: rest =>
      match line.directive, values with
      | .opens opener, _ => truths holds (holds ⟨opener, line.condition⟩ :: values) rest
      | .closes .alternative, value :: outer => truths holds ((!value) :: outer) rest
      | .closes .final, _ :: outer => truths holds outer rest
      | .closes _, [] => truths holds [] rest

/-- Whether the text at an offset is compiled: all conditions open before it hold. -/
def compiled (holds : Guard → Bool) (lines : List DirectiveLine) (offset : Nat) : Bool :=
  (truths holds [] (lines.filter fun line => line.span.start < offset)).all id

/-- The open branches behind some directive lines, innermost first. -/
def openBlocks (opened : List Block) : List DirectiveLine → List Block
  | [] => opened
  | line :: rest =>
      match line.directive, opened with
      | .opens opener, _ => openBlocks (⟨⟨opener, line.condition⟩, line.span⟩ :: opened) rest
      | .closes closer, block :: outer =>
          openBlocks ((closer.next line.span block).toList ++ outer) rest
      | .closes _, [] => openBlocks [] rest

/-- The truth values are those of the guards of the open branches. -/
theorem truths_map_holds {holds : Guard → Bool} (hLawful : Guard.Lawful holds)
    (opened : List Block) (lines : List DirectiveLine) :
    truths holds (opened.map (holds ·.guard)) lines =
      (openBlocks opened lines).map (holds ·.guard) := by
  induction lines generalizing opened with
  | nil => rfl
  | cons line rest ih =>
      cases hLine : line.directive with
      | opens opener =>
          simp only [truths, openBlocks, hLine]
          exact ih (⟨⟨opener, line.condition⟩, line.span⟩ :: opened)
      | closes closer =>
          cases opened with
          | nil =>
              cases closer with
              | alternative =>
                  simp only [truths, openBlocks, hLine, List.map_nil]
                  exact ih []
              | final =>
                  simp only [truths, openBlocks, hLine, List.map_nil]
                  exact ih []
          | cons block outer =>
              cases closer with
              | alternative =>
                  have hNext := ih (block.alternative line.span :: outer)
                  simp only [List.map_cons, Block.alternative, hLawful.complement] at hNext
                  simp only [truths, openBlocks, hLine, List.map_cons, Closer.next,
                    Option.toList_some, List.singleton_append]
                  exact hNext
              | final =>
                  simp only [truths, openBlocks, hLine, List.map_cons, Closer.next,
                    Option.toList_none, List.nil_append]
                  exact ih outer

end Conditional

/-! ## Scopes around an offset -/

/-- Whether the lines of a scope stand around an offset. -/
def Scope.encloses (offset : Nat) (scope : Scope) : Bool :=
  scope.block.opened.start < offset && offset ≤ scope.closedAt

theorem Scope.encloses_iff {offset : Nat} {scope : Scope} :
    Scope.encloses offset scope = true ↔
      scope.block.opened.start < offset ∧ offset ≤ scope.closedAt := by
  rw [Scope.encloses, Bool.and_eq_true, decide_eq_true_eq, decide_eq_true_eq]

namespace Forest

open Conditional

/-- The scopes around an offset, outermost first. -/
def enclosing (offset : Nat) (forest : Forest) : List Scope :=
  forest.scopes.filter (Scope.encloses offset)

/-- The scopes of a forest stand where the forest does. -/
theorem Within.mem_scopes {low high : Nat} {forest : Forest} (h : forest.Within low high)
    {scope : Scope} (hScope : scope ∈ forest.scopes) :
    low ≤ scope.block.opened.start ∧ scope.block.opened.start < scope.region.start ∧
      scope.region.start ≤ scope.closedAt ∧ scope.closedAt < high := by
  induction forest generalizing low high with
  | nil => simp [scopes] at hScope
  | branch block inside closer closed after ihInside ihAfter =>
      obtain ⟨hLow, hOpened, hRegion, hClosed, hHigh, hInside, hAfter⟩ := h
      simp only [scopes, List.mem_cons, List.mem_append] at hScope
      rcases hScope with rfl | hScope | hScope
      · simp only [Scope.region]
        omega
      · have hBetween := ihInside hInside hScope
        omega
      · have hBehind := ihAfter hAfter hScope
        omega

theorem Within.enclosing_eq_nil {low high offset : Nat} {forest : Forest}
    (h : forest.Within low high) (hOffset : offset ≤ low ∨ high ≤ offset) :
    forest.enclosing offset = [] := by
  apply List.filter_eq_nil_iff.mpr
  intro scope hScope
  have hPlace := h.mem_scopes hScope
  simp only [Scope.encloses_iff]
  omega

theorem enclosing_branch (offset : Nat) (block : Block) (inside : Forest) (closer : Closer)
    (closed : Span) (after : Forest) :
    (branch block inside closer closed after).enclosing offset =
      (if Scope.encloses offset ⟨block, closed.start⟩ then [⟨block, closed.start⟩] else []) ++
        (inside.enclosing offset ++ after.enclosing offset) := by
  rw [enclosing, scopes, List.filter_cons, List.filter_append]
  split <;> rfl

section Branch

variable {low high offset : Nat} {block : Block} {inside after : Forest} {closer : Closer}
  {closed : Span}

/-- Nothing of a forest is around an offset ahead of its first branch. -/
theorem Within.enclosing_of_ahead
    (h : (branch block inside closer closed after).Within low high)
    (hOffset : offset ≤ block.opened.start) :
    (branch block inside closer closed after).enclosing offset = [] := by
  obtain ⟨hLow, hOpened, hRegion, hClosed, hHigh, hInside, hAfter⟩ := h
  have hHere : (branch block inside closer closed after).Within block.opened.start high :=
    ⟨Nat.le_refl _, hOpened, hRegion, hClosed, hHigh, hInside, hAfter⟩
  exact hHere.enclosing_eq_nil (.inl hOffset)

/-- Around an offset inside the first branch is that branch, and what is around it in there. -/
theorem Within.enclosing_of_inside
    (h : (branch block inside closer closed after).Within low high)
    (hOpened : block.opened.start < offset) (hClosed : offset ≤ closed.start) :
    (branch block inside closer closed after).enclosing offset =
      ⟨block, closed.start⟩ :: inside.enclosing offset := by
  obtain ⟨_, _, _, _, _, _, hAfter⟩ := h
  have hOwn : Scope.encloses offset ⟨block, closed.start⟩ = true :=
    Scope.encloses_iff.mpr ⟨hOpened, hClosed⟩
  rw [enclosing_branch, if_pos hOwn, hAfter.enclosing_eq_nil (.inl hClosed), List.append_nil]
  rfl

/-- Around an offset behind the first branch are only branches behind it. -/
theorem Within.enclosing_of_behind
    (h : (branch block inside closer closed after).Within low high)
    (hOffset : closed.start < offset) :
    (branch block inside closer closed after).enclosing offset = after.enclosing offset := by
  obtain ⟨_, _, _, _, _, hInside, _⟩ := h
  have hOwn : ¬ Scope.encloses offset ⟨block, closed.start⟩ = true := by
    simp only [Scope.encloses_iff]
    omega
  rw [enclosing_branch, if_neg hOwn, hInside.enclosing_eq_nil (.inr (Nat.le_of_lt hOffset))]
  rfl

end Branch

/-- The scopes around an offset are nested, each inside the one before it. -/
theorem Within.pairwise_enclosing {low high : Nat} {forest : Forest} (h : forest.Within low high)
    (offset : Nat) : (forest.enclosing offset).Pairwise fun outer inner =>
      outer.region.start ≤ inner.block.opened.start ∧ inner.closedAt < outer.closedAt := by
  induction forest generalizing low high with
  | nil => exact List.Pairwise.nil
  | branch block inside closer closed after ihInside ihAfter =>
      have hParts := h
      obtain ⟨_, _, _, _, _, hInside, hAfter⟩ := hParts
      by_cases hAhead : offset ≤ block.opened.start
      · rw [h.enclosing_of_ahead hAhead]
        exact List.Pairwise.nil
      · by_cases hBehind : closed.start < offset
        · rw [h.enclosing_of_behind hBehind]
          exact ihAfter hAfter
        · rw [h.enclosing_of_inside (Nat.lt_of_not_le hAhead) (Nat.le_of_not_lt hBehind)]
          apply List.pairwise_cons.mpr
          constructor
          · intro inner hInner
            have hPlace := hInside.mem_scopes (List.mem_filter.mp hInner).1
            exact ⟨hPlace.1, hPlace.2.2.2⟩
          · exact ihInside hInside

/-- Lines behind an offset do not begin before it. -/
theorem filter_start_lt {source : Text} {bound offset : Nat} {lines : List DirectiveLine}
    (hLines : Spaced source bound lines) (h : offset ≤ bound) :
    (lines.filter fun line => line.span.start < offset) = [] := by
  apply List.filter_eq_nil_iff.mpr
  intro line hLine
  have hStart := hLines.le_start line hLine
  simp only [decide_eq_true_eq]
  omega

/--
The branches open before an offset are those around it, read off the forest from
the innermost to the outermost, and what follows the forest is read with the
branches open before it.
-/
theorem Reads.openBlocks_filter {source : Text} {first : Option Block}
    {lines rest : List DirectiveLine} {forest : Forest} (h : Reads first lines forest rest)
    {bound : Nat} (hLines : Spaced source bound lines) (offset : Nat)
    (hFirst : ∀ block ∈ first, block.opened.start < block.opened.stop ∧
      block.opened.stop ≤ bound ∧ block.opened.start < offset) (outer : List Block) :
    openBlocks (first.toList ++ outer) (lines.filter fun line => line.span.start < offset) =
      openBlocks ((forest.enclosing offset).reverse.map Scope.block ++ outer)
        (rest.filter fun line => line.span.start < offset) := by
  induction h generalizing bound outer with
  | stop _ => rfl
  | @opens line lines rest forest opener hOpens hForest ih =>
      obtain ⟨hBound, hStands, hRest⟩ := hLines
      have hOwn := hStands.start_lt_stop
      by_cases hBefore : line.span.start < offset
      · have hNext := ih hRest (by simpa [hBefore] using hOwn) outer
        rw [List.filter_cons_of_pos (by simpa using hBefore)]
        simpa [openBlocks, hOpens] using hNext
      · have hOffset : offset ≤ line.span.start := Nat.le_of_not_lt hBefore
        have hLater : (lines.filter fun line => line.span.start < offset) = [] :=
          filter_start_lt hRest (by omega)
        have hAfter : (rest.filter fun line => line.span.start < offset) = [] :=
          List.suffix_nil.mp (hLater ▸ hForest.suffix.filter _)
        obtain ⟨behind, _, _, hWithin⟩ := hForest.within hRest (by simpa using hOwn)
        have hNone : forest.enclosing offset = [] :=
          (hWithin behind (Nat.le_refl _)).enclosing_eq_nil (.inl hOffset)
        rw [List.filter_cons_of_neg (by simpa using hBefore), hLater, hAfter, hNone]
        rfl
  | @closes block lines between rest line inside after closer hInside hCloses hAfter ihInside
      ihAfter =>
      obtain ⟨hOpened, hStop, hOpenedBefore⟩ := hFirst block rfl
      obtain ⟨_, _, ⟨_, hStands, hBetween⟩, _⟩ := hInside.within hLines (by simp)
      have hOwn := hStands.start_lt_stop
      obtain ⟨behind, _, _, hWithin⟩ :=
        (Reads.closes hInside hCloses hAfter).within hLines (by simpa using ⟨hOpened, hStop⟩)
      have hWhole := hWithin behind (Nat.le_refl _)
      have hBranch := ihInside hLines (by simp) (block :: outer)
      simp only [Option.toList_none, List.nil_append] at hBranch
      rw [Option.toList_some, List.singleton_append, hBranch]
      by_cases hBefore : line.span.start < offset
      · have hNext := ihAfter hBetween (by
          intro next hMem
          rw [Closer.opened_of_mem_next hMem]
          exact ⟨hOwn, Nat.le_refl _, hBefore⟩) outer
        obtain ⟨_, _, _, _, _, hInner, _⟩ := hWithin behind (Nat.le_refl _)
        have hNone : inside.enclosing offset = [] :=
          hInner.enclosing_eq_nil (.inr (Nat.le_of_lt hBefore))
        rw [hWhole.enclosing_of_behind hBefore, hNone,
          List.filter_cons_of_pos (by simpa using hBefore)]
        simpa [openBlocks, hCloses] using hNext
      · have hOffset : offset ≤ line.span.start := Nat.le_of_not_lt hBefore
        have hLater : (between.filter fun line => line.span.start < offset) = [] :=
          filter_start_lt hBetween (by omega)
        have hRest : (rest.filter fun line => line.span.start < offset) = [] :=
          List.suffix_nil.mp (hLater ▸ hAfter.suffix.filter _)
        rw [hWhole.enclosing_of_inside hOpenedBefore hOffset,
          List.filter_cons_of_neg (by simpa using hBefore), hLater, hRest]
        simp [openBlocks]

end Forest

/-! ## Scopes around a span -/

/--
A scope does not straddle a span: it holds the span, stands behind it or before
it, or stands inside it from its opening line to its end.
-/
def Scope.Clear (span : Span) (scope : Scope) : Prop :=
  scope.covers span = true ∨ span.stop ≤ scope.block.opened.start ∨ scope.closedAt ≤ span.start ∨
    (span.start ≤ scope.block.opened.start ∧ scope.closedAt ≤ span.stop)

namespace Forest

open Conditional

/-- The scopes whose text holds a span, outermost first. -/
def covering (span : Span) (forest : Forest) : List Scope := forest.scopes.filter (·.covers span)

/-- Where no scope straddles a span, the scopes around its start are those that hold it. -/
theorem Within.enclosing_eq_covering {low high : Nat} {forest : Forest}
    (h : forest.Within low high) {span : Span} (hSpan : span.start < span.stop)
    (hClear : ∀ scope ∈ forest.scopes, scope.Clear span)
    (hClosed : ∀ scope ∈ forest.scopes, span.start ≠ scope.closedAt) :
    forest.enclosing span.start = forest.covering span := by
  apply List.filter_congr
  intro scope hScope
  have hPlace := h.mem_scopes hScope
  have hNe := hClosed scope hScope
  have hPosition := hClear scope hScope
  simp only [Scope.Clear, Scope.covers_iff, Scope.region] at hPlace hPosition
  rw [Bool.eq_iff_iff, Scope.encloses_iff, Scope.covers_iff]
  simp only [Scope.region]
  omega

/-- No scope straddles a span that no directive line stands in. -/
theorem IsOf.clear {source : Text} {forest : Forest} (h : IsOf (directiveLines source) forest)
    {span : Span} (hLines : ∀ line ∈ directiveLines source,
      line.span.stop ≤ span.start ∨ span.stop ≤ line.span.start) :
    ∀ scope ∈ forest.scopes, scope.Clear span := by
  intro scope hScope
  obtain ⟨⟨opening, hOpening, hOpened⟩, closing, hClosing, hClosed⟩ :=
    h.lines_of_mem_scopes (by simp) (List.Subset.refl _) hScope
  have hStands := (spaced_directiveLines source).standsIn closing hClosing
  have hOwn := hStands.start_lt_stop
  have hOpeningPlace := hLines opening hOpening
  have hClosingPlace := hLines closing hClosing
  rw [hOpened] at hOpeningPlace
  simp only [Scope.Clear, Scope.covers_iff, Scope.region]
  omega

end Forest

namespace Conditional

/-- Text of a source is compiled exactly when all the guards around it hold. -/
theorem compiled_eq_all_enclosing {source : Text} {forest : Forest}
    (hForest : Forest.IsOf (directiveLines source) forest) {holds : Guard → Bool}
    (hLawful : Guard.Lawful holds) (offset : Nat) :
    compiled holds (directiveLines source) offset =
      ((forest.enclosing offset).map (·.block.guard)).all holds := by
  have hOpen := hForest.openBlocks_filter (spaced_directiveLines source) offset (by simp) []
  have hTruths := truths_map_holds hLawful []
    ((directiveLines source).filter fun line => line.span.start < offset)
  simp only [Option.toList_none, List.append_nil, List.filter_nil] at hOpen
  rw [List.map_nil, hOpen] at hTruths
  rw [compiled, hTruths]
  simp [openBlocks, Function.comp_def]

end Conditional

end ValueNames
