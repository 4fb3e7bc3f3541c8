import ValueNames.Proofs.Scan.Found
import ValueNames.Scan.Cursor

/-!
# A scan from its first to its last line

A scan makes its items ready block by block. Here it is run over all directive
lines at once, and compared with a batch: gather what is found in all parts,
and order it a single time. Both give the same, because what is made ready at
a line stands strictly before everything found later.

## Main results

* `State.read_eq` — a step of the scan is a step of its outline, together with
  what is found in the part looked at.
* `State.run_eq` — a run of the scan orders what is gathered from the parts of
  its outline.
-/

namespace ValueNames.Scan

/-- Items that are handed out unless there is a fault. -/
def checked (fault : Option Fault) (items : List Placed) : Except Fault (List Placed) :=
  match fault with
  | some fault => .error fault
  | none => .ok items

@[simp] theorem checked_none (items : List Placed) : checked none items = .ok items := rfl

@[simp] theorem checked_some (fault : Fault) (items : List Placed) :
    checked (some fault) items = .error fault :=
  rfl

theorem checked_eq_ok_iff {fault : Option Fault} {items found : List Placed} :
    checked fault items = .ok found ↔ fault = none ∧ items = found := by
  cases fault with
  | none => simp
  | some fault => simp

namespace State

variable {setup : Setup}

/-- Goes on to an outline with what was found on the way. -/
def advance (next : Outline) (flushes : Bool) (found : List Placed) (state : State) : State :=
  { state with
    blocks := next.blocks
    pendingFrom := next.pendingFrom
    embedded := next.embedded
    buffer := if flushes then [] else state.buffer ++ found
    ready := if flushes then state.ready ++ Placed.ordered (state.buffer ++ found)
      else state.ready }

@[simp] theorem outline_advance (next : Outline) (flushes : Bool) (found : List Placed)
    (state : State) : (state.advance next flushes found).outline = next :=
  rfl

/-- Reads some directive lines and the end of the source. -/
def run (setup : Setup) (state : State) : List DirectiveLine → Except Fault State
  | [] => state.finish setup
  | line :: rest => (state.read setup line).bind fun next => next.run setup rest

/-- What is found when a directive line is read. -/
def found (setup : Setup) (line : DirectiveLine) (state : State) : Except Fault (List Placed) :=
  match state.outline.part? setup.source line with
  | some part => setup.items part
  | none => .ok []

theorem topLevel_eq (region : Span) (state : State) :
    state.topLevel setup region =
      (setup.items (.topLevel region)).map fun found =>
        { state with embedded := false, buffer := state.buffer ++ found }.flush :=
  rfl

theorem closes_cons {closer : Closer} {line : DirectiveLine} {state : State} {block : Block}
    {outer : List Block} (hBlocks : state.blocks = block :: outer) :
    state.closes setup closer line =
      (setup.items (.branch ⟨block, line.span.start⟩ (outer = []))).map fun found =>
        { state with buffer := state.buffer ++ found }.leave closer line block outer := by
  simp only [closes, hBlocks, Setup.items, Scope.region, decide_eq_true_eq]
  cases setup.look ⟨block.opened.stop, line.span.start⟩ with
  | error fault => rfl
  | ok entities => rfl

/-- A step of the scan is a step of its outline, together with what is found on the way. -/
theorem read_eq {line : DirectiveLine} {state : State} {text : Text}
    (hText : Text.slice? setup.source state.pendingFrom line.span.start = some text) :
    state.read setup line =
      (state.outline.read setup.source line).bind fun next =>
        (state.found setup line).map fun items =>
          state.advance next (state.outline.flushes setup.source line) items := by
  have hRegion : regionText setup.source ⟨state.pendingFrom, line.span.start⟩ = .ok text :=
    regionText_eq_ok_iff.mpr hText
  have hBrace : braceOpen setup.source state.pendingFrom line.span.start =
      leavesBraceOpen text := by
    rw [braceOpen, hText, Option.any_some]
  obtain ⟨blocks, pendingFrom, embedded, buffer, ready, finished⟩ := state
  simp only at hRegion hBrace
  cases hLine : line.directive with
  | opens opener =>
      cases blocks with
      | nil =>
          by_cases hOpen : leavesBraceOpen text = true
          · simp [read, opens, found, outline, Outline.read, Outline.part?, Outline.flushes, hLine,
              hRegion, hBrace, hOpen, advance, push, Except.bind, Except.map]
          · simp only [read, opens, found, outline, Outline.read, Outline.part?, Outline.flushes,
              hLine, hRegion, hBrace, hOpen, topLevel_eq, Except.bind, if_true, Bool.false_eq_true,
              if_false]
            cases setup.items (.topLevel ⟨pendingFrom, line.span.start⟩) with
            | error fault => rfl
            | ok items => simp [Except.map, push, flush, advance]
      | cons block outer =>
          simp [read, opens, found, outline, Outline.read, Outline.part?, Outline.flushes, hLine,
            advance, push, Except.bind, Except.map]
  | closes closer =>
      cases blocks with
      | nil => cases closer <;> simp [read, closes, outline, Outline.read, hLine, Except.bind]
      | cons block outer =>
          simp only [read, hLine, found, outline, Outline.part?]
          rw [closes_cons rfl]
          cases setup.items (.branch ⟨block, line.span.start⟩ (outer = [])) with
          | error fault =>
              cases closer <;> cases outer <;>
                simp [Outline.read, hLine, Except.bind, Except.map]
          | ok items =>
              cases closer with
              | alternative =>
                  simp [Outline.read, Outline.flushes, hLine, Except.bind, Except.map, leave,
                    advance]
              | final =>
                  cases outer with
                  | nil =>
                      cases embedded <;>
                        simp [Outline.read, Outline.flushes, hLine, Except.bind, Except.map, leave,
                          advance, flush]
                  | cons around outer =>
                      simp [Outline.read, Outline.flushes, hLine, Except.bind, Except.map, leave,
                        advance]

/-- What is open and pending behind a line begins in the part of the source read so far. -/
theorem fits_of_read {line : DirectiveLine} {state next : State} {bound : Nat}
    (hFits : state.outline.Fits setup.source bound) (hStands : line.StandsIn setup.source)
    (hBound : bound ≤ line.span.start) (hRead : state.read setup line = .ok next) :
    next.outline.Fits setup.source line.span.stop := by
  obtain ⟨text, hText⟩ := Text.exists_slice? (Text.isBoundary_of_start hFits.pending.2)
    hStands.isBoundary_start (Nat.le_trans hFits.pending.1 hBound)
  rw [read_eq hText] at hRead
  obtain ⟨outline, hOutline, hFound⟩ := bind_eq_ok_iff.mp hRead
  obtain ⟨items, _, rfl⟩ := map_eq_ok_iff.mp hFound
  exact hFits.step hStands hBound (Outline.step_of_read hOutline)

/-- A run that succeeds leaves no branch open. -/
theorem run_blocks {lines : List DirectiveLine} {state final : State}
    (h : state.run setup lines = .ok final) : final.blocks = [] := by
  induction lines generalizing state with
  | nil =>
      unfold run finish at h
      split at h
      · cases h
      · rename_i hBlocks
        rw [topLevel_blocks h]
        exact hBlocks
  | cons line rest ih =>
      obtain ⟨next, _, hNext⟩ := bind_eq_ok_iff.mp h
      exact ih hNext

/-- What is found at a line stands in the part looked at there. -/
theorem exists_part_of_mem_found {line : DirectiveLine} {state : State} {bound : Nat}
    (hInside : setup.FindsInside) (hFits : state.outline.Fits setup.source bound)
    (hStands : line.StandsIn setup.source) (hBound : bound ≤ line.span.start)
    {items : List Placed} (h : state.found setup line = .ok items) {placed : Placed}
    (hPlaced : placed ∈ items) :
    ∃ part ∈ state.outline.part? setup.source line,
      placed.offset < part.stop ∧ part.stop ≤ line.span.stop := by
  unfold found at h
  split at h
  · rename_i part hPart
    obtain ⟨hPartFits, hStop⟩ := hFits.part hStands hBound hPart
    exact ⟨part, hPart, (Setup.mem_items hInside hPartFits h hPlaced).2, hStop⟩
  · cases h
    simp at hPlaced

/-- Nothing found up to the end of a line stands behind it. -/
theorem found_lt_stop {line : DirectiveLine} {state : State} {bound : Nat}
    (hInside : setup.FindsInside) (hFits : state.outline.Fits setup.source bound)
    (hStands : line.StandsIn setup.source) (hBound : bound ≤ line.span.start)
    (hBuffer : ∀ placed ∈ state.buffer, placed.offset < bound) {items : List Placed}
    (h : state.found setup line = .ok items) :
    ∀ placed ∈ state.buffer ++ items, placed.offset < line.span.stop := by
  have hOwn := hStands.start_lt_stop
  intro placed hMem
  rcases List.mem_append.mp hMem with hMem | hMem
  · have hOld := hBuffer placed hMem
    omega
  · obtain ⟨part, _, hLess, hPart⟩ := exists_part_of_mem_found hInside hFits hStands hBound h hMem
    omega

/-! ## A whole run -/

/-- At a line, what is gathered is what is found there and behind it. -/
theorem gather_cons {line : DirectiveLine} {rest : List DirectiveLine} {state : State}
    {next : Outline} (h : state.outline.read setup.source line = .ok next) :
    setup.gather (state.outline.parts setup.source (line :: rest)) =
      (state.found setup line).bind fun items =>
        (setup.gather (next.parts setup.source rest)).map (items ++ ·) := by
  rw [Outline.parts_cons_of_read h, found]
  cases state.outline.part? setup.source line with
  | some part => rfl
  | none =>
      cases hRest : setup.gather (next.parts setup.source rest) with
      | error fault => simp [hRest, Except.bind, Except.map]
      | ok items => simp [hRest, Except.bind, Except.map]

/-- What a line makes ready stands strictly before everything found behind the line. -/
theorem flushed_lt_found {line : DirectiveLine} {rest : List DirectiveLine} {state : State}
    {bound : Nat} {next : Outline} (hInside : setup.FindsInside)
    (hFits : state.outline.Fits setup.source bound)
    (hLines : Conditional.Spaced setup.source bound (line :: rest))
    (hBuffer : ∀ placed ∈ state.buffer, placed.offset < bound)
    (hRead : state.outline.read setup.source line = .ok next)
    (hFlushes : state.outline.flushes setup.source line = true) {items found : List Placed}
    (hItems : state.found setup line = .ok items)
    (hFound : setup.gather (next.parts setup.source rest) = .ok found) :
    ∀ x ∈ state.buffer ++ items, ∀ y ∈ found, x.offset < y.offset := by
  obtain ⟨hBound, hStands, hRest⟩ := hLines
  have hStep := Outline.step_of_read hRead
  have hNext := hFits.step hStands hBound hStep
  obtain ⟨cut, hCut, hCutStop, hBehind, hPart⟩ :=
    Outline.exists_cut_of_flushes hStands hStep hFlushes
  have hBefore : ∀ x ∈ state.buffer ++ items, x.offset < cut := by
    intro x hx
    rcases List.mem_append.mp hx with hx | hx
    · have hOld := hBuffer x hx
      omega
    · obtain ⟨part, hMem, hLess, _⟩ :=
        exists_part_of_mem_found hInside hFits hStands hBound hItems hx
      exact Nat.lt_of_lt_of_le hLess (hPart part hMem)
  have hAfter : ∀ y ∈ found, cut ≤ y.offset := by
    intro y hy
    have hParts : ∀ part ∈ next.parts setup.source rest, part.Fits setup.source := by
      intro part hMem
      exact Outline.fits_of_mem_parts hNext hRest hStands.isLineEnd_stop.isBoundary.le_size hMem
    obtain ⟨part, hMem, hStart, _⟩ := Setup.exists_part_of_mem_gather hInside hParts hFound hy
    exact Nat.le_trans (Outline.le_start_of_mem_parts hBehind hCutStop hRest hMem) hStart
  intro x hx y hy
  exact Nat.lt_of_lt_of_le (hBefore x hx) (hAfter y hy)

/--
A run of the scan orders what is gathered from the parts that its outline looks
at, together with what was buffered, unless the nesting of the lines is faulty.
-/
theorem run_eq {lines : List DirectiveLine} (state : State) {bound : Nat}
    (hInside : setup.FindsInside) (hFits : state.outline.Fits setup.source bound)
    (hLines : Conditional.Spaced setup.source bound lines)
    (hSize : bound ≤ Text.size setup.source)
    (hBuffer : ∀ placed ∈ state.buffer, placed.offset < bound) :
    (state.run setup lines).map State.ready =
      (setup.gather (state.outline.parts setup.source lines)).bind fun found =>
        checked (state.outline.fault? setup.source lines)
          (state.ready ++ Placed.ordered (state.buffer ++ found)) := by
  induction lines generalizing state bound with
  | nil =>
      cases hBlocks : state.blocks with
      | nil =>
          simp only [run, finish, hBlocks, topLevel_eq, outline, Outline.parts, Outline.fault?,
            Setup.gather]
          cases setup.items (.topLevel ⟨state.pendingFrom, Text.size setup.source⟩) with
          | error fault => rfl
          | ok items => simp [Except.map, Except.bind, flush]
      | cons block outer =>
          simp [run, finish, hBlocks, outline, Outline.parts, Outline.fault?, Setup.gather,
            Except.map, Except.bind]
  | cons line rest ih =>
      obtain ⟨hBound, hStands, hRest⟩ := hLines
      obtain ⟨text, hText⟩ := Text.exists_slice? (Text.isBoundary_of_start hFits.pending.2)
        hStands.isBoundary_start (Nat.le_trans hFits.pending.1 hBound)
      rw [run, read_eq hText]
      cases hRead : state.outline.read setup.source line with
      | error fault =>
          simp [Outline.parts, Outline.fault?, hRead, Setup.gather, Except.bind, Except.map]
      | ok next =>
          have hStep := Outline.step_of_read hRead
          have hNext := hFits.step hStands hBound hStep
          have hStop := hStands.isLineEnd_stop.isBoundary.le_size
          have hFault : state.outline.fault? setup.source (line :: rest) =
              next.fault? setup.source rest := by
            rw [Outline.fault?, hRead]
          rw [gather_cons hRead, hFault]
          cases hFound : state.found setup line with
          | error fault => rfl
          | ok items =>
              have hItems := found_lt_stop hInside hFits hStands hBound hBuffer hFound
              show ((state.advance next (state.outline.flushes setup.source line) items).run setup
                rest).map ready = ((setup.gather (next.parts setup.source rest)).map
                  (items ++ ·)).bind _
              by_cases hFlushes : state.outline.flushes setup.source line = true
              · rw [hFlushes, ih (state.advance next true items) hNext hRest hStop
                  (by simp [advance]), outline_advance]
                cases hGather : setup.gather (next.parts setup.source rest) with
                | error fault => rfl
                | ok found =>
                    have hSplit := flushed_lt_found hInside hFits ⟨hBound, hStands, hRest⟩ hBuffer
                      hRead hFlushes hFound hGather
                    simp only [Except.bind, Except.map, advance, if_true, List.nil_append]
                    rw [← List.append_assoc state.buffer, Placed.ordered_append hSplit,
                      List.append_assoc]
              · rw [Bool.not_eq_true] at hFlushes
                rw [hFlushes, ih (state.advance next false items) hNext hRest hStop hItems,
                  outline_advance]
                cases hGather : setup.gather (next.parts setup.source rest) with
                | error fault => rfl
                | ok found => simp [Except.bind, Except.map, advance]

end State

end ValueNames.Scan
