import ValueNames.Proofs.Conditional.Forest
import ValueNames.Scan.State

/-!
# What a scan looks at

The directive lines of a source decide by themselves which parts of it a scan
looks at, and in which order. What the finders find there has no influence on
the open branches, on the start of the pending top-level text, or on the
embedded flag. The outline of a scan is its state without what was found.

The same parts can be read off the forest of the source: each branch comes
after the branches inside it, and the text outside all blocks comes in chunks.

## Main results

* `Outline.parts_eq_of_isOf` — the parts in the order in which a scan looks at
  them are those of the forest.
* `Outline.fits_of_mem_parts` — every part is a piece of the source.
* `Outline.exists_cut_of_flushes` — what is made ready stands before all that
  is looked at later.
* `Outline.fault?_eq` — the line at which a faulty nesting is reported.
-/

namespace ValueNames.Scan

/-! ## Parts -/

/-- What a scan looks at in one go. -/
inductive Part
  /-- Text outside all blocks. -/
  | topLevel (region : Span)
  /-- A branch that ends. -/
  | branch (scope : Scope) (outermost : Bool)
deriving DecidableEq, Repr

/-- The text that is looked at. -/
def Part.region : Part → Span
  | .topLevel region => region
  | .branch scope _ => scope.region

/-- Whether finders are called on a part: outside all blocks only if there is text. -/
def Part.IsLookedAt : Part → Prop
  | .topLevel region => region.start < region.stop
  | .branch _ _ => True

/-- The offset before which nothing of a part stands. -/
def Part.start : Part → Nat
  | .topLevel region => region.start
  | .branch scope _ => scope.block.opened.start

/-- The offset before which everything of a part stands. -/
def Part.stop : Part → Nat
  | .topLevel region => region.stop
  | .branch scope _ => scope.closedAt + 1

/--
The part is a piece of the source, cut out behind a directive line or at the
start, and a branch begins behind its opening line.
-/
structure Part.Fits (source : Text) (part : Part) : Prop where
  start : part.region.start = 0 ∨ Text.IsLineEnd source part.region.start
  isBoundary_stop : Text.IsBoundary source part.region.stop
  start_le_stop : part.region.start ≤ part.region.stop
  start_le_region : part.start ≤ part.region.start

/-- The region of a part has a text. -/
theorem Part.Fits.exists_text {source : Text} {part : Part} (h : part.Fits source) :
    ∃ text, regionText source part.region = .ok text := by
  obtain ⟨text, hText⟩ :=
    Text.exists_slice? (Text.isBoundary_of_start h.start) h.isBoundary_stop h.start_le_stop
  exact ⟨text, regionText_eq_ok_iff.mpr hText⟩

/-- Whether the text between two offsets leaves a brace open. -/
def braceOpen (source : Text) (start stop : Nat) : Bool :=
  (Text.slice? source start stop).any leavesBraceOpen

end Scan

open Scan

/-- The branches of a forest, each after the branches inside it. -/
def Forest.branches (outermost : Bool) : Forest → List Part
  | nil => []
  | branch block inside _ closed after =>
      inside.branches false ++ .branch ⟨block, closed.start⟩ outermost :: after.branches outermost

/--
The parts of a source from the outermost level of its forest: the branches,
each after those inside it, and the chunks of the text outside all blocks. A
chunk ends where a block begins, unless a brace is open there; the block is
then embedded in the chunk. `within` is given behind an `#else`, and says
whether its block is embedded.
-/
def Forest.parts (source : Text) (pendingFrom : Nat) (within : Option Bool) : Forest → List Part
  | nil => [.topLevel ⟨pendingFrom, Text.size source⟩]
  | branch block inside closer closed after =>
      let embedded := within.getD (braceOpen source pendingFrom block.opened.start)
      let chunk := if within = none ∧ embedded = false then
          [Part.topLevel ⟨pendingFrom, block.opened.start⟩]
        else []
      let rest := match closer with
        | .alternative => after.parts source pendingFrom (some embedded)
        | .final => after.parts source (if embedded then pendingFrom else closed.stop) none
      chunk ++ inside.branches false ++ .branch ⟨block, closed.start⟩ true :: rest

namespace Scan

/-! ## Outlines -/

/-- The state of a scan without what it has found. -/
structure Outline where
  /-- The open branches, innermost first. -/
  blocks : List Block
  /-- The start of the top-level text not looked at yet. -/
  pendingFrom : Nat
  /-- Whether the outermost block stands inside an unfinished declaration. -/
  embedded : Bool

/-- The outline of a state. -/
def State.outline (state : State) : Outline := ⟨state.blocks, state.pendingFrom, state.embedded⟩

namespace Outline

variable (source : Text)

/-- The part that is looked at when a directive line is read. -/
def part? (line : DirectiveLine) (outline : Outline) : Option Part :=
  match line.directive, outline.blocks with
  | .opens _, [] =>
      if braceOpen source outline.pendingFrom line.span.start then none
      else some (.topLevel ⟨outline.pendingFrom, line.span.start⟩)
  | .opens _, _ :: _ => none
  | .closes _, [] => none
  | .closes _, block :: outer => some (.branch ⟨block, line.span.start⟩ (outer = []))

/-- Reads a directive line. -/
def read (line : DirectiveLine) (outline : Outline) : Except Fault Outline :=
  match line.directive, outline.blocks with
  | .opens opener, [] =>
      .ok ⟨[⟨⟨opener, line.condition⟩, line.span⟩], outline.pendingFrom,
        braceOpen source outline.pendingFrom line.span.start⟩
  | .opens opener, block :: outer =>
      .ok ⟨⟨⟨opener, line.condition⟩, line.span⟩ :: block :: outer, outline.pendingFrom,
        outline.embedded⟩
  | .closes closer, [] => .error (.strayCloser (line.span.line source) closer)
  | .closes .alternative, block :: outer =>
      .ok ⟨block.alternative line.span :: outer, outline.pendingFrom, outline.embedded⟩
  | .closes .final, _ :: [] =>
      .ok ⟨[], if outline.embedded then outline.pendingFrom else line.span.stop, outline.embedded⟩
  | .closes .final, _ :: block :: outer =>
      .ok ⟨block :: outer, outline.pendingFrom, outline.embedded⟩

/-- Whether a directive line makes what is buffered ready. -/
def flushes (line : DirectiveLine) (outline : Outline) : Bool :=
  match line.directive, outline.blocks with
  | .opens _, [] => !braceOpen source outline.pendingFrom line.span.start
  | .closes .final, _ :: [] => !outline.embedded
  | _, _ => false

/-- The parts that are looked at, up to the first stray closing line. -/
def parts (outline : Outline) : List DirectiveLine → List Part
  | [] =>
      match outline.blocks with
      | [] => [.topLevel ⟨outline.pendingFrom, Text.size source⟩]
      | _ :: _ => []
  | line :: rest =>
      match outline.read source line with
      | .ok next => (outline.part? source line).toList ++ next.parts rest
      | .error _ => []

/-- What is wrong with the nesting of the lines. -/
def fault? (outline : Outline) : List DirectiveLine → Option Fault
  | [] =>
      outline.blocks.head?.map fun block => .neverClosed (block.opened.line source) block.guard
  | line :: rest =>
      match outline.read source line with
      | .ok next => next.fault? rest
      | .error fault => some fault

/-! ## The parts of a forest -/

variable {source}

theorem parts_cons_of_read {line : DirectiveLine} {rest : List DirectiveLine}
    {outline next : Outline} (h : outline.read source line = .ok next) :
    outline.parts source (line :: rest) =
      (outline.part? source line).toList ++ next.parts source rest := by
  simp only [parts, h]

/-- Inside an open branch, the branches of a forest are all that is looked at. -/
theorem parts_of_reads_inside {first : Option Block} {lines rest : List DirectiveLine}
    {forest : Forest} (h : Forest.Reads first lines forest rest) {pendingFrom : Nat}
    {embedded : Bool} {outer : List Block} (hOuter : outer ≠ []) :
    parts source ⟨first.toList ++ outer, pendingFrom, embedded⟩ lines =
      forest.branches false ++ parts source ⟨outer, pendingFrom, embedded⟩ rest := by
  obtain ⟨around, outer, rfl⟩ := List.exists_cons_of_ne_nil hOuter
  induction h generalizing around outer with
  | stop _ => rfl
  | opens hOpens _ ih =>
      simp only [parts, part?, read, hOpens, Option.toList_none, List.nil_append]
      exact ih around outer (by simp)
  | @closes block lines between rest line inside after closer _ hCloses _ ihInside ihAfter =>
      have hInside := ihInside block (around :: outer) (by simp)
      have hAfter := ihAfter around outer (by simp)
      simp only [Option.toList_none, List.nil_append] at hInside
      simp only [Option.toList_some, List.singleton_append, hInside, Forest.branches]
      cases closer with
      | alternative =>
          simp only [Closer.next, Option.toList_some, List.singleton_append] at hAfter
          simp [parts, part?, read, hCloses, hAfter]
      | final =>
          simp only [Closer.next, Option.toList_none, List.nil_append] at hAfter
          simp [parts, part?, read, hCloses, hAfter]

/--
From the outermost level on, the parts looked at are those of the forest. With
a branch open, the parts are those of a forest whose block was already entered.
-/
theorem parts_of_reads {first : Option Block} {lines : List DirectiveLine} {forest : Forest}
    (h : Forest.Reads first lines forest []) (pendingFrom : Nat) (embedded : Bool) :
    parts source ⟨first.toList, pendingFrom, embedded⟩ lines =
      forest.parts source pendingFrom (first.map fun _ => embedded) := by
  generalize hRest : ([] : List DirectiveLine) = rest at h
  induction h generalizing pendingFrom embedded with
  | stop _ =>
      subst hRest
      rfl
  | @opens line lines rest forest opener hOpens hFirst ih =>
      obtain ⟨inside, closer, closed, after, rfl⟩ := hFirst.eq_branch
      have hEntered := ih pendingFrom (braceOpen source pendingFrom line.span.start) hRest
      simp only [Option.toList_some, Option.map_some] at hEntered
      simp only [parts, part?, read, hOpens, Option.toList_none, hEntered]
      cases hBrace : braceOpen source pendingFrom line.span.start with
      | false => simp [Forest.parts, hBrace]
      | true => simp [Forest.parts, hBrace]
  | @closes block lines between rest line inside after closer hInside hCloses hAfter _ ihAfter =>
      have hBranches : parts source ⟨[block], pendingFrom, embedded⟩ lines =
          inside.branches false ++
            parts source ⟨[block], pendingFrom, embedded⟩ (line :: between) :=
        parts_of_reads_inside hInside (by simp)
      simp only [Option.toList_some, hBranches, Forest.parts]
      cases closer with
      | alternative =>
          have hRestParts := ihAfter pendingFrom embedded hRest
          simp only [Closer.next, Option.toList_some, Option.map_some] at hRestParts
          simp [parts, part?, read, hCloses, hRestParts]
      | final =>
          have hRestParts :=
            ihAfter (if embedded then pendingFrom else line.span.stop) embedded hRest
          simp only [Closer.next, Option.toList_none, Option.map_none] at hRestParts
          simp [parts, part?, read, hCloses, hRestParts]

/-- The parts of a whole source. -/
theorem parts_eq_of_isOf {lines : List DirectiveLine} {forest : Forest}
    (h : Forest.IsOf lines forest) :
    parts source State.initial.outline lines = forest.parts source 0 none :=
  parts_of_reads h 0 false

/-! ## The place of the parts -/

/-- The open branches and the pending text begin in the part of the source read so far. -/
structure Fits (source : Text) (bound : Nat) (outline : Outline) : Prop where
  pending : outline.pendingFrom ≤ bound ∧
    (outline.pendingFrom = 0 ∨ Text.IsLineEnd source outline.pendingFrom)
  blocks : ∀ block ∈ outline.blocks, block.opened.start < block.opened.stop ∧
    block.opened.stop ≤ bound ∧ Text.IsLineEnd source block.opened.stop

/-- What is still to be looked at begins at an offset or behind it. -/
structure Behind (low : Nat) (outline : Outline) : Prop where
  pending : outline.blocks = [] ∨ outline.embedded = true → low ≤ outline.pendingFrom
  blocks : ∀ block ∈ outline.blocks, low ≤ block.opened.start

theorem fits_initial : State.initial.outline.Fits source 0 where
  pending := ⟨Nat.le_refl _, .inl rfl⟩
  blocks := by simp [State.initial, State.outline]

/-- What reading a line does to an outline. -/
inductive Step (source : Text) (line : DirectiveLine) : Outline → Outline → Prop
  | opensOutermost {opener : Opener} {pendingFrom : Nat} {embedded : Bool}
      (hOpens : line.directive = .opens opener) :
      Step source line ⟨[], pendingFrom, embedded⟩
        ⟨[⟨⟨opener, line.condition⟩, line.span⟩], pendingFrom,
          braceOpen source pendingFrom line.span.start⟩
  | opensInside {opener : Opener} {block : Block} {outer : List Block} {pendingFrom : Nat}
      {embedded : Bool} (hOpens : line.directive = .opens opener) :
      Step source line ⟨block :: outer, pendingFrom, embedded⟩
        ⟨⟨⟨opener, line.condition⟩, line.span⟩ :: block :: outer, pendingFrom, embedded⟩
  | alternative {block : Block} {outer : List Block} {pendingFrom : Nat} {embedded : Bool}
      (hCloses : line.directive = .closes .alternative) :
      Step source line ⟨block :: outer, pendingFrom, embedded⟩
        ⟨block.alternative line.span :: outer, pendingFrom, embedded⟩
  | leavesOutermost {block : Block} {pendingFrom : Nat} {embedded : Bool}
      (hCloses : line.directive = .closes .final) :
      Step source line ⟨[block], pendingFrom, embedded⟩
        ⟨[], if embedded then pendingFrom else line.span.stop, embedded⟩
  | leavesInside {block around : Block} {outer : List Block} {pendingFrom : Nat}
      {embedded : Bool} (hCloses : line.directive = .closes .final) :
      Step source line ⟨block :: around :: outer, pendingFrom, embedded⟩
        ⟨around :: outer, pendingFrom, embedded⟩

theorem step_of_read {line : DirectiveLine} {outline next : Outline}
    (h : outline.read source line = .ok next) : Step source line outline next := by
  obtain ⟨blocks, pendingFrom, embedded⟩ := outline
  cases hLine : line.directive with
  | opens opener =>
      cases blocks with
      | nil =>
          simp only [Outline.read, hLine, Except.ok.injEq] at h
          exact h ▸ .opensOutermost hLine
      | cons block outer =>
          simp only [Outline.read, hLine, Except.ok.injEq] at h
          exact h ▸ .opensInside hLine
  | closes closer =>
      match closer, blocks with
      | closer, [] => simp [Outline.read, hLine] at h
      | .alternative, block :: outer =>
          simp only [Outline.read, hLine, Except.ok.injEq] at h
          exact h ▸ .alternative hLine
      | .final, [block] =>
          simp only [Outline.read, hLine, Except.ok.injEq] at h
          exact h ▸ .leavesOutermost hLine
      | .final, block :: around :: outer =>
          simp only [Outline.read, hLine, Except.ok.injEq] at h
          exact h ▸ .leavesInside hLine

/-- Reading a line moves the bound of an outline behind the line. -/
theorem Fits.step {bound : Nat} {line : DirectiveLine} {outline next : Outline}
    (h : outline.Fits source bound) (hStands : line.StandsIn source)
    (hBound : bound ≤ line.span.start) (hStep : Step source line outline next) :
    next.Fits source line.span.stop := by
  obtain ⟨⟨hPendingBound, hPendingStart⟩, hBlocks⟩ := h
  have hOwn := hStands.start_lt_stop
  have hPending : outline.pendingFrom ≤ line.span.stop ∧
      (outline.pendingFrom = 0 ∨ Text.IsLineEnd source outline.pendingFrom) :=
    ⟨by omega, hPendingStart⟩
  have hLine : line.span.start < line.span.stop ∧ line.span.stop ≤ line.span.stop ∧
      Text.IsLineEnd source line.span.stop := ⟨hOwn, Nat.le_refl _, hStands.isLineEnd_stop⟩
  have hOlder : ∀ block ∈ outline.blocks, block.opened.start < block.opened.stop ∧
      block.opened.stop ≤ line.span.stop ∧ Text.IsLineEnd source block.opened.stop := by
    intro block hBlock
    obtain ⟨hOpened, hStop, hLineEnd⟩ := hBlocks block hBlock
    exact ⟨hOpened, by omega, hLineEnd⟩
  cases hStep with
  | opensOutermost => exact ⟨hPending, List.forall_mem_cons.mpr ⟨hLine, hOlder⟩⟩
  | opensInside => exact ⟨hPending, List.forall_mem_cons.mpr ⟨hLine, hOlder⟩⟩
  | alternative =>
      exact ⟨hPending, List.forall_mem_cons.mpr ⟨hLine, (List.forall_mem_cons.mp hOlder).2⟩⟩
  | @leavesOutermost _ _ embedded =>
      refine ⟨?_, by simp⟩
      cases embedded with
      | true => exact hPending
      | false => exact ⟨Nat.le_refl _, .inr hStands.isLineEnd_stop⟩
  | leavesInside => exact ⟨hPending, (List.forall_mem_cons.mp hOlder).2⟩

/-- Reading a line does not bring back what stands before it. -/
theorem Behind.step {low : Nat} {line : DirectiveLine} {outline next : Outline}
    (h : outline.Behind low) (hStands : line.StandsIn source) (hLow : low ≤ line.span.start)
    (hStep : Step source line outline next) : next.Behind low := by
  obtain ⟨hPending, hBlocks⟩ := h
  have hOwn := hStands.start_lt_stop
  cases hStep with
  | opensOutermost =>
      exact ⟨fun _ => hPending (.inl rfl), List.forall_mem_cons.mpr ⟨hLow, hBlocks⟩⟩
  | opensInside =>
      refine ⟨fun hCase => hPending (.inr ?_), List.forall_mem_cons.mpr ⟨hLow, hBlocks⟩⟩
      simpa using hCase
  | alternative =>
      refine ⟨fun hCase => hPending (.inr ?_),
        List.forall_mem_cons.mpr ⟨hLow, (List.forall_mem_cons.mp hBlocks).2⟩⟩
      simpa using hCase
  | @leavesOutermost _ _ embedded =>
      refine ⟨fun _ => ?_, by simp⟩
      cases embedded with
      | true => exact hPending (.inr rfl)
      | false => exact Nat.le_trans hLow (Nat.le_of_lt hOwn)
  | leavesInside =>
      refine ⟨fun hCase => hPending (.inr ?_), (List.forall_mem_cons.mp hBlocks).2⟩
      simpa using hCase

/-- The part looked at when a line is read does not stand before what is to be looked at. -/
theorem Behind.le_start {low : Nat} {line : DirectiveLine} {outline : Outline}
    (h : outline.Behind low) {part : Part} (hPart : part ∈ outline.part? source line) :
    low ≤ part.start := by
  obtain ⟨hPending, hBlocks⟩ := h
  unfold part? at hPart
  split at hPart
  · rename_i hNone
    split at hPart
    · simp at hPart
    · cases hPart
      exact hPending (.inl hNone)
  · simp at hPart
  · simp at hPart
  · rename_i block outer _ hSome
    cases hPart
    exact hBlocks block (by simp [hSome])

/--
What becomes ready at a line stands before an offset that everything looked at
later stands behind.
-/
theorem exists_cut_of_flushes {line : DirectiveLine} {outline next : Outline}
    (hStands : line.StandsIn source) (hStep : Step source line outline next)
    (hFlushes : outline.flushes source line = true) :
    ∃ cut, line.span.start ≤ cut ∧ cut ≤ line.span.stop ∧ next.Behind cut ∧
      ∀ part ∈ outline.part? source line, part.stop ≤ cut := by
  have hOwn := hStands.start_lt_stop
  cases hStep with
  | @opensOutermost opener pendingFrom embedded hOpens =>
      have hClosed : braceOpen source pendingFrom line.span.start = false := by
        simpa [flushes, hOpens] using hFlushes
      refine ⟨line.span.start, Nat.le_refl _, Nat.le_of_lt hOwn, ⟨?_, by simp⟩, ?_⟩
      · simp [hClosed]
      · simp [part?, hOpens, hClosed, Part.stop]
  | opensInside hOpens => simp [flushes, hOpens] at hFlushes
  | alternative hCloses => simp [flushes, hCloses] at hFlushes
  | @leavesOutermost block pendingFrom embedded hCloses =>
      have hFree : embedded = false := by simpa [flushes, hCloses] using hFlushes
      refine ⟨line.span.stop, Nat.le_of_lt hOwn, Nat.le_refl _, ⟨?_, by simp⟩, ?_⟩
      · simp [hFree]
      · simp only [part?, hCloses, Option.mem_def, Option.some.injEq, forall_eq', Part.stop]
        exact hOwn
  | leavesInside hCloses => simp [flushes, hCloses] at hFlushes

/-- The part looked at when a line is read is a piece of the source up to the line. -/
theorem Fits.part {bound : Nat} {line : DirectiveLine} {outline : Outline}
    (h : outline.Fits source bound) (hStands : line.StandsIn source)
    (hBound : bound ≤ line.span.start) {part : Part} (hPart : part ∈ outline.part? source line) :
    part.Fits source ∧ part.stop ≤ line.span.stop := by
  obtain ⟨⟨hPendingBound, hPendingStart⟩, hBlocks⟩ := h
  have hOwn := hStands.start_lt_stop
  obtain ⟨blocks, pendingFrom, embedded⟩ := outline
  cases hLine : line.directive with
  | opens opener =>
      cases blocks with
      | nil =>
          simp only [part?, hLine, Option.mem_def] at hPart
          split at hPart
          · simp at hPart
          · cases hPart
            exact ⟨⟨hPendingStart, hStands.isBoundary_start, Nat.le_trans hPendingBound hBound,
              Nat.le_refl _⟩, Nat.le_of_lt hOwn⟩
      | cons block outer => simp [part?, hLine] at hPart
  | closes closer =>
      cases blocks with
      | nil => simp [part?, hLine] at hPart
      | cons block outer =>
          simp only [part?, hLine, Option.mem_def, Option.some.injEq] at hPart
          subst hPart
          obtain ⟨hOpened, hStop, hLineEnd⟩ := hBlocks block (by simp)
          exact ⟨⟨.inr hLineEnd, hStands.isBoundary_start, Nat.le_trans hStop hBound,
            Nat.le_of_lt hOpened⟩, hOwn⟩

/-- The parts of an outline are pieces of the source. -/
theorem fits_of_mem_parts {bound : Nat} {lines : List DirectiveLine} {outline : Outline}
    (h : outline.Fits source bound) (hLines : Conditional.Spaced source bound lines)
    (hSize : bound ≤ Text.size source) {part : Part} (hPart : part ∈ outline.parts source lines) :
    part.Fits source := by
  induction lines generalizing outline bound with
  | nil =>
      obtain ⟨hPendingBound, hPendingStart⟩ := h.pending
      simp only [parts] at hPart
      split at hPart
      · obtain rfl := List.mem_singleton.mp hPart
        exact ⟨hPendingStart, Text.isBoundary_size source, Nat.le_trans hPendingBound hSize,
          Nat.le_refl _⟩
      · simp at hPart
  | cons line rest ih =>
      obtain ⟨hBound, hStands, hRest⟩ := hLines
      simp only [parts] at hPart
      split at hPart
      · rename_i next hRead
        rcases List.mem_append.mp hPart with hPart | hPart
        · exact (h.part hStands hBound (Option.mem_toList.mp hPart)).1
        · exact ih (h.step hStands hBound (step_of_read hRead)) hRest
            hStands.isLineEnd_stop.isBoundary.le_size hPart
      · simp at hPart

/-- No part of an outline begins before everything that is still to be looked at. -/
theorem le_start_of_mem_parts {low bound : Nat} {lines : List DirectiveLine} {outline : Outline}
    (h : outline.Behind low) (hLow : low ≤ bound)
    (hLines : Conditional.Spaced source bound lines) {part : Part}
    (hPart : part ∈ outline.parts source lines) : low ≤ part.start := by
  induction lines generalizing outline bound with
  | nil =>
      simp only [parts] at hPart
      split at hPart
      · rename_i hNone
        obtain rfl := List.mem_singleton.mp hPart
        exact h.pending (.inl hNone)
      · simp at hPart
  | cons line rest ih =>
      obtain ⟨hBound, hStands, hRest⟩ := hLines
      have hLine : low ≤ line.span.start := Nat.le_trans hLow hBound
      have hOwn := hStands.start_lt_stop
      simp only [parts] at hPart
      split at hPart
      · rename_i next hRead
        rcases List.mem_append.mp hPart with hPart | hPart
        · exact h.le_start (Option.mem_toList.mp hPart)
        · exact ih (h.step hStands hLine (step_of_read hRead)) (by omega) hRest hPart
      · simp at hPart

/-! ## Faulty nesting -/

/--
A faulty nesting is reported at the first closing line without an open branch
or, where there is none, at the line of the innermost branch never closed.
-/
theorem fault?_eq (source : Text) (lines : List DirectiveLine) {opened : List DirectiveLine}
    {outline : Outline}
    (hOpened : outline.blocks.map (·.opened) = opened.map (·.span)) :
    match Conditional.openLines opened lines with
    | .error line => ∃ closer, line.directive = .closes closer ∧
        outline.fault? source lines = some (.strayCloser (line.span.line source) closer)
    | .ok (line :: _) => ∃ guard,
        outline.fault? source lines = some (.neverClosed (line.span.line source) guard)
    | .ok [] => outline.fault? source lines = none := by
  induction lines generalizing outline opened with
  | nil =>
      cases opened with
      | nil =>
          have hBlocks : outline.blocks = [] := by simpa using hOpened
          simp [Conditional.openLines, fault?, hBlocks]
      | cons top outer =>
          obtain ⟨block, others, hBlocks, hTop, _⟩ := List.map_eq_cons_iff.mp hOpened
          simp [Conditional.openLines, fault?, hBlocks, hTop]
  | cons line rest ih =>
      obtain ⟨blocks, pendingFrom, embedded⟩ := outline
      cases hLine : line.directive with
      | opens opener =>
          have hNext : Conditional.openLines opened (line :: rest) =
              Conditional.openLines (line :: opened) rest := by
            simp [Conditional.openLines, hLine]
          rw [hNext]
          cases blocks with
          | nil =>
              simp only [fault?, Outline.read, hLine]
              exact ih (by simpa using hOpened)
          | cons block others =>
              simp only [fault?, Outline.read, hLine]
              exact ih (by simpa using hOpened)
      | closes closer =>
          cases blocks with
          | nil =>
              obtain rfl : opened = [] := by simpa using hOpened
              simp [Conditional.openLines, fault?, Outline.read, hLine]
          | cons block others =>
              cases opened with
              | nil => simp at hOpened
              | cons top outer =>
                  obtain ⟨hTop, hOuter⟩ := List.cons_eq_cons.mp hOpened
                  cases closer with
                  | alternative =>
                      simp only [Conditional.openLines, fault?, Outline.read, hLine]
                      exact ih (by simpa [Block.alternative] using hOuter)
                  | final =>
                      simp only [Conditional.openLines, fault?, hLine]
                      cases others with
                      | nil =>
                          simp only [Outline.read, hLine]
                          exact ih hOuter
                      | cons around others =>
                          simp only [Outline.read, hLine]
                          exact ih hOuter

/-- At the start no branch is open. -/
theorem map_opened_initial :
    State.initial.outline.blocks.map (·.opened) = ([] : List DirectiveLine).map (·.span) :=
  rfl

/-- Balanced lines have no fault. -/
theorem fault?_eq_none_iff (source : Text) {lines : List DirectiveLine} :
    State.initial.outline.fault? source lines = none ↔ Conditional.Balanced lines := by
  have hFault := fault?_eq source lines map_opened_initial
  unfold Conditional.Balanced
  split at hFault
  · rename_i hOpen
    obtain ⟨closer, _, hFault⟩ := hFault
    simp [hFault, hOpen]
  · rename_i hOpen
    obtain ⟨guard, hFault⟩ := hFault
    simp [hFault, hOpen]
  · rename_i hOpen
    simp [hFault, hOpen]

end Outline

end ValueNames.Scan
