import ValueNames.Proofs.Scan.Collect

/-!
# What a scan covers outside all blocks

Text outside all blocks is looked at in chunks. A chunk ends where a block begins,
unless a brace is open there: the block is then embedded, and the chunk goes on
behind it. So the chunks and the blocks that are not embedded lie one behind the
other, and a block that is embedded lies in the chunk that goes on behind it.

The start of the pending text, the embedded flag and the open branches keep this up
together. Up to the frontier, where the next chunk or block that is not embedded
begins, everything is covered.

## Main results

* `Passage.tiles` — what a directive line adds covers the source from one frontier
  to the next.
* `Course.tiles`, `Course.exists_around` — so a whole scan covers the source, and
  embedded blocks lie in its chunks.
* `State.exists_batches_of_run` — everything found is ordered, batch by batch.
* `exists_course_of_collect` — a scan that succeeds looks at everything once.
-/

namespace ValueNames

open Conditional

/-! ## Tilings -/

/-- Spans that lie one behind the other, from `low` to `high` without a gap. -/
def Span.Tiles : Nat → List Span → Nat → Prop
  | low, [], high => low = high
  | low, span :: rest, high =>
      span.start = low ∧ span.start ≤ span.stop ∧ Tiles span.stop rest high

namespace Span

theorem Tiles.append {low middle high : Nat} {front back : List Span}
    (hFront : Tiles low front middle) (hBack : Tiles middle back high) :
    Tiles low (front ++ back) high := by
  induction front generalizing low with
  | nil =>
      obtain rfl : low = middle := hFront
      exact hBack
  | cons span front ih =>
      obtain ⟨hStart, hOrder, hRest⟩ := hFront
      exact ⟨hStart, hOrder, ih hRest⟩

theorem Tiles.le_start {low high : Nat} {spans : List Span} (h : Tiles low spans high) :
    ∀ span ∈ spans, low ≤ span.start := by
  induction spans generalizing low with
  | nil => simp
  | cons first rest ih =>
      obtain ⟨hStart, hOrder, hRest⟩ := h
      intro span hSpan
      rcases List.mem_cons.mp hSpan with rfl | hSpan
      · omega
      · have hBehind := ih hRest span hSpan
        omega

/-- No offset lies in two spans of a tiling. -/
theorem Tiles.eq_of_mem {low high : Nat} {spans : List Span} (h : Tiles low spans high)
    {span other : Span} (hSpan : span ∈ spans) (hOther : other ∈ spans) {offset : Nat}
    (hIn : span.start ≤ offset ∧ offset < span.stop)
    (hIn' : other.start ≤ offset ∧ offset < other.stop) : span = other := by
  induction spans generalizing low with
  | nil => simp at hSpan
  | cons first rest ih =>
      obtain ⟨_, _, hRest⟩ := h
      have hBehind := hRest.le_start
      rcases List.mem_cons.mp hSpan with rfl | hSpanLater
      · rcases List.mem_cons.mp hOther with rfl | hOtherLater
        · rfl
        · have hLater := hBehind other hOtherLater
          omega
      · rcases List.mem_cons.mp hOther with rfl | hOtherLater
        · have hLater := hBehind span hSpanLater
          omega
        · exact ih hRest hSpanLater hOtherLater

end Span

namespace Scan

/-- A stretch of a source at its outermost level. -/
inductive Stretch
  /-- A region looked at outside all blocks. -/
  | chunk (region : Span)
  /-- An outermost block, from its opening line to the end of its `#endif` line. -/
  | block (extent : Span) (embedded : Bool)
deriving DecidableEq, Repr

/-- What a stretch covers by itself. An embedded block is covered by a chunk. -/
def Stretch.tile? : Stretch → Option Span
  | .chunk region => some region
  | .block extent embedded => if embedded then none else some extent

/-- What some stretches cover, in order. -/
def Stretch.tiles (stretches : List Stretch) : List Span := stretches.filterMap tile?

theorem Stretch.tiles_append (front back : List Stretch) :
    tiles (front ++ back) = tiles front ++ tiles back :=
  List.filterMap_append

theorem Stretch.mem_tiles_of_chunk {stretches : List Stretch} {region : Span}
    (h : .chunk region ∈ stretches) : region ∈ tiles stretches :=
  List.mem_filterMap.mpr ⟨_, h, rfl⟩

/-! ## The course of a scan -/

/--
What reading a directive line does at the outermost level: the stretch that it adds,
and the state behind it. The outermost open block, if there is one, begins at
`opened`.
-/
inductive Passage (setup : Setup) (line : DirectiveLine) (opened : Nat) (state : State) :
    List Stretch → Nat → State → Prop
  /-- The pending text is looked at, and a block begins behind it. -/
  | cutsOff {opener : Opener} {top : State} (hOpens : line.directive = .opens opener)
      (hBlocks : state.blocks = [])
      (hTop : state.topLevel setup ⟨state.pendingFrom, line.span.start⟩ = .ok top) :
      Passage setup line opened state [.chunk ⟨state.pendingFrom, line.span.start⟩]
        line.span.start (top.push opener line)
  /-- A block begins inside the pending text. -/
  | embeds {opener : Opener} (hOpens : line.directive = .opens opener)
      (hBlocks : state.blocks = []) :
      Passage setup line opened state [] line.span.start
        ({ state with embedded := true }.push opener line)
  /-- A block begins inside another one. -/
  | nests {opener : Opener} (hOpens : line.directive = .opens opener)
      (hBlocks : state.blocks ≠ []) :
      Passage setup line opened state [] opened (state.push opener line)
  /-- A branch ends, but not the outermost block. -/
  | staysInside {closer : Closer} {next : State} (hCloses : line.directive = .closes closer)
      (hRead : state.closes setup closer line = .ok next) (hBlocks : next.blocks ≠ []) :
      Passage setup line opened state [] opened next
  /-- The outermost block ends. -/
  | leavesOutermost {next : State} (hCloses : line.directive = .closes .final)
      (hRead : state.closes setup .final line = .ok next) (hBlocks : next.blocks = []) :
      Passage setup line opened state [.block ⟨opened, line.span.stop⟩ next.embedded] opened next

/-- The stretches of a scan, from a state over some directive lines to the last state. -/
inductive Course (setup : Setup) :
    Nat → State → List DirectiveLine → List Stretch → State → Prop
  /-- At the end the pending text is looked at. -/
  | ends {opened : Nat} {state last : State} (hBlocks : state.blocks = [])
      (hTop : { state with finished := true }.topLevel setup
        ⟨state.pendingFrom, Text.size setup.source⟩ = .ok last) :
      Course setup opened state [] [.chunk ⟨state.pendingFrom, Text.size setup.source⟩] last
  /-- A directive line is read, and the scan goes on from the state it is in then. -/
  | passes {opened opened' : Nat} {state next last : State} {line : DirectiveLine}
      {lines : List DirectiveLine} {own stretches : List Stretch}
      (hRead : state.read setup line = .ok next)
      (hPasses : Passage setup line opened state own opened' next)
      (hRest : Course setup opened' next lines stretches last) :
      Course setup opened state (line :: lines) (own ++ stretches) last

variable {setup : Setup}

/-- Every directive line that is read is a passage. -/
theorem State.exists_passage {line : DirectiveLine} {state next : State}
    (h : state.read setup line = .ok next) (opened : Nat) :
    ∃ own opened', Passage setup line opened state own opened' next := by
  unfold read at h
  split at h
  · rename_i opener hOpens
    unfold opens at h
    split at h
    · rename_i hBlocks
      obtain ⟨text, _, h⟩ := bind_eq_ok_iff.mp h
      split at h
      · cases h
        exact ⟨_, _, .embeds hOpens hBlocks⟩
      · obtain ⟨top, hTop, rfl⟩ := map_eq_ok_iff.mp h
        exact ⟨_, _, .cutsOff hOpens hBlocks hTop⟩
    · rename_i hBlocks
      cases h
      exact ⟨_, _, .nests hOpens hBlocks⟩
  · rename_i closer hCloses
    by_cases hBlocks : next.blocks = []
    · -- An `#else` line leaves its block open.
      obtain ⟨block, outer, _, hNext⟩ := close_blocks h
      cases closer with
      | alternative =>
          rw [hBlocks] at hNext
          cases hNext
      | final => exact ⟨_, _, .leavesOutermost hCloses h hBlocks⟩
    · exact ⟨_, _, .staysInside hCloses h hBlocks⟩

/-- A run that succeeds has a course. -/
theorem State.exists_course {lines : List DirectiveLine} {state last : State}
    (h : state.run setup lines = .ok last) (opened : Nat) :
    ∃ stretches, Course setup opened state lines stretches last := by
  induction lines generalizing state opened with
  | nil =>
      unfold run finish at h
      split at h
      · cases h
      · rename_i hBlocks
        exact ⟨_, .ends hBlocks h⟩
  | cons line rest ih =>
      obtain ⟨next, hRead, hNext⟩ := bind_eq_ok_iff.mp h
      obtain ⟨own, opened', hPasses⟩ := exists_passage hRead opened
      obtain ⟨stretches, hRest⟩ := ih hNext opened'
      exact ⟨_, .passes hRead hPasses hRest⟩

/-! ## The frontier -/

/--
Up to here the stretches so far cover the source: to the pending text or, inside a
block that is not embedded, to the block.
-/
def State.frontier (opened : Nat) (state : State) : Nat :=
  if state.blocks = [] ∨ state.embedded = true then state.pendingFrom else opened

/-- The pending text and the outermost block begin in the part of the source read so far. -/
structure State.Sound (bound opened : Nat) (state : State) : Prop where
  pending : state.pendingFrom ≤ bound
  outermost : state.blocks ≠ [] → opened ≤ bound
  /-- An embedded block stands in the pending text. -/
  around : state.blocks ≠ [] → state.embedded = true → state.pendingFrom ≤ opened

theorem State.sound_initial (opened : Nat) : State.initial.Sound 0 opened where
  pending := Nat.le_refl _
  outermost h := absurd rfl h
  around h := absurd rfl h

/-- What looking at text outside all blocks leaves as it is. -/
theorem State.topLevel_outline {region : Span} {state top : State}
    (h : state.topLevel setup region = .ok top) :
    top.blocks = state.blocks ∧ top.pendingFrom = state.pendingFrom ∧ top.embedded = false := by
  obtain ⟨entities, _, rfl⟩ := map_eq_ok_iff.mp h
  exact ⟨rfl, rfl, rfl⟩

/-- A closing line moves the pending text only behind a block that is not embedded. -/
theorem State.closes_outline {closer : Closer} {line : DirectiveLine} {state next : State}
    (h : state.closes setup closer line = .ok next) :
    state.blocks ≠ [] ∧ next.embedded = state.embedded ∧
      next.pendingFrom = if next.blocks = [] ∧ state.embedded = false then line.span.stop
        else state.pendingFrom := by
  unfold closes at h
  split at h
  · cases h
  · rename_i block outer hBlocks
    obtain ⟨entities, _, rfl⟩ := map_eq_ok_iff.mp h
    refine ⟨by simp [hBlocks], ?_⟩
    cases closer with
    | alternative => simp [leave]
    | final =>
        by_cases hOutermost : outer = [] ∧ state.embedded = false
        · simp [leave, hOutermost, flush]
        · simp [leave, hOutermost]

namespace Passage

variable {line : DirectiveLine} {opened opened' bound : Nat} {state next : State}
  {own : List Stretch}

theorem sound (h : Passage setup line opened state own opened' next)
    (hSound : state.Sound bound opened) (hBound : bound ≤ line.span.start)
    (hLine : line.span.start < line.span.stop) : next.Sound line.span.stop opened' := by
  obtain ⟨hPending, hOpened, hAround⟩ := hSound
  cases h with
  | cutsOff hOpens hBlocks hTop =>
      obtain ⟨_, hSame, hClosed⟩ := State.topLevel_outline hTop
      refine ⟨?_, fun _ => Nat.le_of_lt hLine, fun _ hEmbedded => ?_⟩
      · show (State.pendingFrom _) ≤ _
        simp only [State.push, hSame]
        omega
      · rw [State.push, hClosed] at hEmbedded
        cases hEmbedded
  | embeds hOpens hBlocks =>
      refine ⟨?_, fun _ => Nat.le_of_lt hLine, fun _ _ => ?_⟩
      · show state.pendingFrom ≤ _
        omega
      · show state.pendingFrom ≤ _
        omega
  | nests hOpens hBlocks =>
      have hOld := hOpened hBlocks
      refine ⟨?_, fun _ => by omega, fun _ hEmbedded => hAround hBlocks hEmbedded⟩
      show state.pendingFrom ≤ _
      omega
  | staysInside hCloses hRead hBlocks =>
      obtain ⟨hOpen, hEmbedded, hFrom⟩ := State.closes_outline hRead
      rw [if_neg (by simp [hBlocks])] at hFrom
      have hOld := hOpened hOpen
      refine ⟨by omega, fun _ => by omega, fun _ hOwn => ?_⟩
      rw [hFrom]
      exact hAround hOpen (hEmbedded ▸ hOwn)
  | leavesOutermost hCloses hRead hBlocks =>
      obtain ⟨hOpen, hEmbedded, hFrom⟩ := State.closes_outline hRead
      refine ⟨?_, fun hOther => absurd hBlocks hOther, fun hOther => absurd hBlocks hOther⟩
      rw [hFrom]
      split <;> omega

/-- What a directive line adds covers the source from one frontier to the next. -/
theorem tiles (h : Passage setup line opened state own opened' next)
    (hSound : state.Sound bound opened) (hBound : bound ≤ line.span.start)
    (hLine : line.span.start < line.span.stop) :
    Span.Tiles (state.frontier opened) (Stretch.tiles own) (next.frontier opened') := by
  obtain ⟨hPending, hOpened, _⟩ := hSound
  cases h with
  | @cutsOff opener top hOpens hBlocks hTop =>
      obtain ⟨_, _, hClosed⟩ := State.topLevel_outline hTop
      have hFrontier : (top.push opener line).frontier line.span.start = line.span.start := by
        simp [State.frontier, State.push, hClosed]
      rw [hFrontier, State.frontier, if_pos (.inl hBlocks)]
      exact ⟨rfl, Nat.le_trans hPending hBound, rfl⟩
  | embeds hOpens hBlocks =>
      rw [State.frontier, if_pos (.inl hBlocks), State.frontier, if_pos (.inr rfl)]
      rfl
  | @nests opener hOpens hBlocks =>
      have hFrontier : (state.push opener line).frontier opened = state.frontier opened := by
        simp [State.frontier, State.push, hBlocks]
      rw [hFrontier]
      rfl
  | staysInside hCloses hRead hBlocks =>
      obtain ⟨hOpen, hEmbedded, hFrom⟩ := State.closes_outline hRead
      rw [if_neg (by simp [hBlocks])] at hFrom
      have hFrontier : next.frontier opened = state.frontier opened := by
        simp [State.frontier, hBlocks, hOpen, hEmbedded, hFrom]
      rw [hFrontier]
      rfl
  | leavesOutermost hCloses hRead hBlocks =>
      obtain ⟨hOpen, hEmbedded, hFrom⟩ := State.closes_outline hRead
      have hOld := hOpened hOpen
      have hFrontier : next.frontier opened = next.pendingFrom := if_pos (.inl hBlocks)
      rw [hFrontier, hFrom, hEmbedded]
      cases hOwn : state.embedded with
      | true =>
          rw [State.frontier, if_pos (.inr hOwn), if_neg (by simp)]
          rfl
      | false =>
          rw [State.frontier, if_neg (by simp [hOpen, hOwn]), if_pos ⟨hBlocks, rfl⟩]
          exact ⟨rfl, by show opened ≤ line.span.stop; omega, rfl⟩

/-- Text that is pending stays so until it is looked at. -/
theorem chunk_or_pending (h : Passage setup line opened state own opened' next)
    (hPending : state.blocks = [] ∨ state.embedded = true) :
    own = [.chunk ⟨state.pendingFrom, line.span.start⟩] ∨
      (next.pendingFrom = state.pendingFrom ∧ (next.blocks = [] ∨ next.embedded = true)) := by
  cases h with
  | cutsOff hOpens hBlocks hTop => exact .inl rfl
  | embeds hOpens hBlocks => exact .inr ⟨rfl, .inr rfl⟩
  | nests hOpens hBlocks => exact .inr ⟨rfl, .inr (hPending.resolve_left hBlocks)⟩
  | staysInside hCloses hRead hBlocks =>
      obtain ⟨hOpen, hEmbedded, hFrom⟩ := State.closes_outline hRead
      rw [if_neg (by simp [hBlocks])] at hFrom
      exact .inr ⟨hFrom, .inr (hEmbedded.trans (hPending.resolve_left hOpen))⟩
  | leavesOutermost hCloses hRead hBlocks =>
      obtain ⟨hOpen, hEmbedded, hFrom⟩ := State.closes_outline hRead
      have hOwn := hPending.resolve_left hOpen
      rw [if_neg (by simp [hOwn])] at hFrom
      exact .inr ⟨hFrom, .inl hBlocks⟩

end Passage

/-! ## A whole scan -/

namespace Course

variable {opened bound : Nat} {state last : State} {lines : List DirectiveLine}
  {stretches : List Stretch}

/-- From the frontier on, the stretches of a scan cover the source. -/
theorem tiles (h : Course setup opened state lines stretches last)
    (hSound : state.Sound bound opened) (hLines : Spaced setup.source bound lines)
    (hSize : bound ≤ Text.size setup.source) :
    Span.Tiles (state.frontier opened) (Stretch.tiles stretches) (Text.size setup.source) := by
  induction h generalizing bound with
  | ends hBlocks hTop =>
      rw [State.frontier, if_pos (.inl hBlocks)]
      exact ⟨rfl, Nat.le_trans hSound.pending hSize, rfl⟩
  | passes hRead hPasses hRest ih =>
      obtain ⟨hBound, hStands, hLater⟩ := hLines
      have hLine := hStands.start_lt_stop
      have hStop := hStands.isLineEnd_stop.isBoundary.le_size
      rw [Stretch.tiles_append]
      exact (hPasses.tiles hSound hBound hLine).append
        (ih (hPasses.sound hSound hBound hLine) hLater hStop)

/-- Pending text is looked at in a chunk that ends behind all that was read. -/
theorem exists_chunk (h : Course setup opened state lines stretches last)
    (hLines : Spaced setup.source bound lines) (hSize : bound ≤ Text.size setup.source)
    (hPending : state.blocks = [] ∨ state.embedded = true) :
    ∃ stop, bound ≤ stop ∧ .chunk ⟨state.pendingFrom, stop⟩ ∈ stretches := by
  induction h generalizing bound with
  | ends hBlocks hTop => exact ⟨_, hSize, List.mem_singleton_self _⟩
  | @passes _ _ _ _ _ line _ _ _ hRead hPasses hRest ih =>
      obtain ⟨hBound, hStands, hLater⟩ := hLines
      have hLine := hStands.start_lt_stop
      rcases hPasses.chunk_or_pending hPending with rfl | ⟨hFrom, hNext⟩
      · exact ⟨line.span.start, hBound, by simp⟩
      · obtain ⟨stop, hBehind, hChunk⟩ :=
          ih hLater hStands.isLineEnd_stop.isBoundary.le_size hNext
        exact ⟨stop, by omega, List.mem_append_right _ (hFrom ▸ hChunk)⟩

/-- An embedded block has text and lies in a chunk. -/
theorem exists_around (h : Course setup opened state lines stretches last)
    (hSound : state.Sound bound opened) (hLines : Spaced setup.source bound lines)
    {extent : Span} (hBlock : .block extent true ∈ stretches) :
    extent.start < extent.stop ∧ ∃ region, .chunk region ∈ stretches ∧
      region.start ≤ extent.start ∧ extent.stop ≤ region.stop := by
  induction h generalizing bound with
  | ends hBlocks hTop => simp at hBlock
  | @passes opened opened' state next last line lines own stretches hStep hPasses hRest ih =>
      obtain ⟨hBound, hStands, hLater⟩ := hLines
      have hLine := hStands.start_lt_stop
      have hStop := hStands.isLineEnd_stop.isBoundary.le_size
      rcases List.mem_append.mp hBlock with hOwn | hRestBlock
      · -- The block ends at this line, and the pending text goes on behind it.
        cases hPasses with
        | cutsOff hOpens hBlocks hTop => simp at hOwn
        | embeds hOpens hBlocks => simp at hOwn
        | nests hOpens hBlocks => simp at hOwn
        | staysInside hCloses hRead hBlocks => simp at hOwn
        | leavesOutermost hCloses hRead hBlocks =>
            obtain ⟨rfl, hMark⟩ : extent = ⟨opened, line.span.stop⟩ ∧ true = next.embedded := by
              simpa using hOwn
            obtain ⟨hOpen, hEmbedded, hFrom⟩ := State.closes_outline hRead
            have hState : state.embedded = true := (hMark.trans hEmbedded).symm
            rw [if_neg (by simp [hState])] at hFrom
            obtain ⟨stop, hBehind, hChunk⟩ := hRest.exists_chunk hLater hStop (.inl hBlocks)
            have hAround := hSound.around hOpen hState
            have hOld := hSound.outermost hOpen
            refine ⟨?_, _, List.mem_append_right _ hChunk, ?_, hBehind⟩
            · show opened < line.span.stop
              omega
            · show next.pendingFrom ≤ opened
              omega
      · obtain ⟨hText, region, hChunk, hInside⟩ :=
          ih (hPasses.sound hSound hBound hLine) hLater hRestBlock
        exact ⟨hText, region, List.mem_append_right _ hChunk, hInside⟩

end Course

/-! ## Batches -/

/--
Everything found by a run is made ready in batches, each of them ordered, and
nothing stays in the buffer.
-/
theorem State.exists_batches_of_run {lines : List DirectiveLine} {state last : State}
    {bound : Nat} (hFits : state.outline.Fits setup.source bound)
    (hLines : Spaced setup.source bound lines) (h : state.run setup lines = .ok last) :
    last.buffer = [] ∧ ∃ (found : List Placed) (batches : List (List Placed)),
      setup.gather (state.outline.parts setup.source lines) = .ok found ∧
      batches.flatten = state.buffer ++ found ∧
      last.ready = state.ready ++ batches.flatMap Placed.ordered := by
  induction lines generalizing state bound with
  | nil =>
      unfold run finish at h
      split at h
      · cases h
      · rename_i hBlocks
        rw [topLevel_eq] at h
        obtain ⟨found, hFound, rfl⟩ := map_eq_ok_iff.mp h
        refine ⟨rfl, found, [state.buffer ++ found], ?_, by simp, ?_⟩
        · simp [outline, hBlocks, Outline.parts, Setup.gather, hFound, Except.bind, Except.map]
        · simp [flush]
  | cons line rest ih =>
      obtain ⟨hBound, hStands, hRest⟩ := hLines
      obtain ⟨text, hText⟩ := Text.exists_slice? (Text.isBoundary_of_start hFits.pending.2)
        hStands.isBoundary_start (Nat.le_trans hFits.pending.1 hBound)
      rw [run, read_eq hText] at h
      obtain ⟨after, hRead, hRun⟩ := bind_eq_ok_iff.mp h
      obtain ⟨next, hNext, hAfter⟩ := bind_eq_ok_iff.mp hRead
      obtain ⟨own, hOwn, rfl⟩ := map_eq_ok_iff.mp hAfter
      have hStep := hFits.step hStands hBound (Outline.step_of_read hNext)
      obtain ⟨hEmpty, others, batches, hOthers, hFlatten, hReady⟩ := ih hStep hRest hRun
      rw [outline_advance] at hOthers
      have hGather : setup.gather (state.outline.parts setup.source (line :: rest)) =
          .ok (own ++ others) := by
        rw [gather_cons hNext, hOwn, hOthers]
        rfl
      by_cases hFlushes : state.outline.flushes setup.source line = true
      · simp only [advance, hFlushes, if_true, List.nil_append] at hFlatten hReady
        refine ⟨hEmpty, _, (state.buffer ++ own) :: batches, hGather, ?_, ?_⟩
        · simp [hFlatten]
        · simp [hReady]
      · simp only [advance, hFlushes, Bool.false_eq_true, if_false] at hFlatten hReady
        exact ⟨hEmpty, _, batches, hGather, by simp [hFlatten], hReady⟩

/-- What ordering drops is an entity, and another one is kept at its offset. -/
theorem mem_flatMap_ordered {batches : List (List Placed)} {placed : Placed}
    (h : placed ∈ batches.flatten) :
    placed ∈ batches.flatMap Placed.ordered ∨
      (placed.item.isEntity = true ∧ ∃ kept ∈ batches.flatMap Placed.ordered,
        kept.item.isEntity = true ∧ kept.offset = placed.offset) := by
  obtain ⟨batch, hBatch, hMem⟩ := List.mem_flatten.mp h
  by_cases hEntity : placed.item.isEntity = true
  · obtain ⟨kept, hKept, hKind, hOffset⟩ := Placed.exists_entity_ordered hMem hEntity
    exact .inr ⟨hEntity, kept, List.mem_flatMap.mpr ⟨batch, hBatch, hKept⟩, hKind, hOffset⟩
  · have hGuard : placed ∈ batch.filter (!·.item.isEntity) :=
      List.mem_filter.mpr ⟨hMem, by simp [hEntity]⟩
    have hKept := (List.mem_filter.mp ((Placed.ordered_perm_guards batch).mem_iff.mpr hGuard)).1
    exact .inl (List.mem_flatMap.mpr ⟨batch, hBatch, hKept⟩)

/--
A scan that succeeds looks at everything once. The regions looked at outside all
blocks and the outermost blocks that are not embedded lie one behind the other and
cover the source. Every embedded block lies in exactly one of the regions. At the end
the buffer is empty: all that was found has been ordered, batch by batch, and was
handed out, or dropped for another entity at the same offset.
-/
theorem exists_course_of_collect {items : List Placed}
    (h : (Cursor.start setup).collect = .ok items) :
    ∃ stretches last, ∃ batches : List (List Placed),
      Course setup 0 State.initial (directiveLines setup.source) stretches last ∧
      Span.Tiles 0 (Stretch.tiles stretches) (Text.size setup.source) ∧
      (∀ extent, .block extent true ∈ stretches → ∃ region, .chunk region ∈ stretches ∧
        region.start ≤ extent.start ∧ extent.stop ≤ region.stop ∧
        ∀ other, .chunk other ∈ stretches → other.start ≤ extent.start →
          extent.stop ≤ other.stop → other = region) ∧
      (Cursor.start setup).Ends items ⟨setup, last.emptied, []⟩ ∧ last.buffer = [] ∧
      setup.gather (State.initial.outline.parts setup.source (directiveLines setup.source)) =
        .ok batches.flatten ∧
      items = batches.flatMap Placed.ordered ∧
      ∀ placed ∈ batches.flatten, placed ∈ items ∨
        (placed.item.isEntity = true ∧ ∃ kept ∈ items,
          kept.item.isEntity = true ∧ kept.offset = placed.offset) := by
  have hSpaced := spaced_directiveLines setup.source
  have hSound := State.sound_initial 0
  have hFulfils : (Cursor.start setup).Fulfils
      (State.initial.run setup (directiveLines setup.source)) := Cursor.fulfils_run rfl
  rw [collect_eq_run] at h
  obtain ⟨last, hRun, rfl⟩ := map_eq_ok_iff.mp h
  rw [hRun] at hFulfils
  obtain ⟨stretches, hCourse⟩ := State.exists_course hRun 0
  obtain ⟨hEmpty, found, batches, hFound, hFlatten, hReady⟩ :=
    State.exists_batches_of_run Outline.fits_initial hSpaced hRun
  have hTiles := hCourse.tiles hSound hSpaced (Nat.zero_le _)
  have hItems : last.ready = batches.flatMap Placed.ordered := hReady
  have hPushed : batches.flatten = found := hFlatten
  refine ⟨stretches, last, batches, hCourse, hTiles, ?_, hFulfils, hEmpty, ?_, hItems, ?_⟩
  · intro extent hBlock
    obtain ⟨hText, region, hChunk, hStart, hStop⟩ := hCourse.exists_around hSound hSpaced hBlock
    refine ⟨region, hChunk, hStart, hStop, ?_⟩
    intro other hOther hOtherStart hOtherStop
    exact hTiles.eq_of_mem (Stretch.mem_tiles_of_chunk hOther)
      (Stretch.mem_tiles_of_chunk hChunk) ⟨hOtherStart, by omega⟩ ⟨hStart, by omega⟩
  · rw [hPushed]
    exact hFound
  · rw [hItems]
    exact fun placed hPlaced => mem_flatMap_ordered hPlaced

/-- A source with a block inside a declaration, and another block behind it. -/
def Setup.embedding : Setup where
  source := "enum e \x7b\n#if A\nX,\n#endif\nY\x7d;\n#ifdef B\nint y;\n#endif\n".toList
  finders := [firstByte]
  unguardedOutermost := false

/-- In that source the chunks and blocks cover everything, and nothing stays in the buffer. -/
theorem exists_course_embedding :
    ∃ items stretches last, (Cursor.start Setup.embedding).collect = .ok items ∧
      Course Setup.embedding 0 State.initial (directiveLines Setup.embedding.source) stretches
        last ∧
      Span.Tiles 0 (Stretch.tiles stretches) 52 ∧
      (∀ extent, .block extent true ∈ stretches → ∃ region, .chunk region ∈ stretches ∧
        region.start ≤ extent.start ∧ extent.stop ≤ region.stop) ∧
      last.buffer = [] := by
  have hSome : ((State.initial.run Setup.embedding
      (directiveLines Setup.embedding.source)).map State.ready).toOption.isSome = true := by
    decide +kernel
  obtain ⟨items, hItems⟩ := Option.isSome_iff_exists.mp hSome
  have hCollect := collect_of_run hItems
  obtain ⟨stretches, last, _, hCourse, hTiles, hAround, _, hEmpty, _⟩ :=
    exists_course_of_collect hCollect
  have hSize : Text.size Setup.embedding.source = 52 := by decide +kernel
  rw [hSize] at hTiles
  refine ⟨items, stretches, last, hCollect, hCourse, hTiles, ?_, hEmpty⟩
  intro extent hBlock
  obtain ⟨region, hChunk, hStart, hStop, _⟩ := hAround extent hBlock
  exact ⟨region, hChunk, hStart, hStop⟩

end Scan

end ValueNames
