import ValueNames.Conditional.Line
import ValueNames.Finder
import ValueNames.Item
import ValueNames.Scan.Braces

/-!
# The state of a scan

A scan reads the directive lines of a source in order and keeps the branches
that are open. When a branch ends, every finder looks at its region, and what
is found is placed between the lines of the branch's guard. Text outside all
blocks is looked at without a guard.

Items of an outermost block are buffered until it ends and are then ordered
and made ready. A block that opens at top level inside an unfinished
declaration, where a brace is open, does not cut the text around it: it is
embedded, and its items wait for the top-level text it stands in.

## Main results

* `close_blocks` — a closing line ends the innermost branch, and an `#else` opens the other one.
-/

namespace ValueNames.Scan

/-- What a scan works on. -/
structure Setup where
  source : Text
  finders : List Finder
  /-- Leave out the guards of outermost blocks. -/
  unguardedOutermost : Bool

/-- What a scan knows between two directive lines. -/
structure State where
  /-- The open branches, innermost first. -/
  blocks : List Block
  /-- The start of the top-level text not looked at yet. -/
  pendingFrom : Nat
  /-- Whether the outermost block stands inside an unfinished declaration. -/
  embedded : Bool
  /-- The items of the current outermost block in the order of discovery. -/
  buffer : List Placed
  /-- Ordered items that wait to be handed out. -/
  ready : List Placed
  /-- Whether the end was reached or an error met. -/
  finished : Bool

/-- Nothing is read and nothing found. -/
def State.initial : State := ⟨[], 0, false, [], [], false⟩

/-! ## Looking at a region -/

/-- The entity at its place in the source. -/
def placeEntity : Entity → Except Fault Placed
  | .enumeration declared => .ok ⟨declared.span.start, .entity (.enumeration declared)⟩
  | .macroGroup group =>
      match group.span? with
      | some span => .ok ⟨span.start, .entity (.macroGroup group)⟩
      | none => .error (.emptyGroup group.lead)

/-- What one finder finds in a region, each entity at its place. -/
def placedBy (source : Text) (region : Span) (finder : Finder) : Except Fault (List Placed) :=
  (finder.find source region).bind (·.mapM placeEntity)

/-- What the finders find in a region, finder by finder. -/
def Setup.look (setup : Setup) (region : Span) : Except Fault (List Placed) :=
  (setup.finders.mapM (placedBy setup.source region)).map List.flatten

/-- Entities between the lines of the guard of their branch, where there are any. -/
def guarded (block : Block) (closeOffset : Nat) (entities : List Placed) : List Placed :=
  if entities = [] then []
  else
    ⟨block.opened.start, .guard ⟨block.guard.opening, false⟩⟩ :: entities ++
      [⟨closeOffset, .guard ⟨block.guard.closing, true⟩⟩]

namespace State

/-- Orders the buffered items and makes them ready. -/
def flush (state : State) : State :=
  { state with ready := state.ready ++ Placed.ordered state.buffer, buffer := [] }

/-- Looks at a region outside all blocks; blocks embedded in it are ordered with it. -/
def topLevel (setup : Setup) (region : Span) (state : State) : Except Fault State :=
  (if region.start < region.stop then setup.look region else .ok []).map fun entities =>
    { state with embedded := false, buffer := state.buffer ++ entities }.flush

/-! ## Directive lines -/

/-- Adds the branch of an opening line. -/
def push (opener : Opener) (line : DirectiveLine) (state : State) : State :=
  { state with blocks := ⟨⟨opener, line.condition⟩, line.span⟩ :: state.blocks }

/--
Reads an opening line. At top level the text before it is looked at first,
unless it leaves a brace open.
-/
def opens (setup : Setup) (opener : Opener) (line : DirectiveLine) (state : State) :
    Except Fault State :=
  if state.blocks = [] then
    let pending : Span := ⟨state.pendingFrom, line.span.start⟩
    (regionText setup.source pending).bind fun text =>
      if leavesBraceOpen text then .ok ({ state with embedded := true }.push opener line)
      else (state.topLevel setup pending).map (push opener line)
  else .ok (state.push opener line)

/-- Goes on after the items of a branch: with the other branch, or behind the block. -/
def leave (closer : Closer) (line : DirectiveLine) (block : Block) (outer : List Block)
    (state : State) : State :=
  match closer with
  | .alternative => { state with blocks := block.alternative line.span :: outer }
  | .final =>
      if outer = [] ∧ state.embedded = false then
        { state with blocks := outer, pendingFrom := line.span.stop }.flush
      else { state with blocks := outer }

/-- Reads a closing line: looks at the region of the innermost branch and leaves it. -/
def closes (setup : Setup) (closer : Closer) (line : DirectiveLine) (state : State) :
    Except Fault State :=
  match state.blocks with
  | [] => .error (.strayCloser (line.span.line setup.source) closer)
  | block :: outer =>
      (setup.look ⟨block.opened.stop, line.span.start⟩).map fun entities =>
        let items :=
          if setup.unguardedOutermost ∧ outer = [] then entities
          else guarded block line.span.start entities
        { state with buffer := state.buffer ++ items }.leave closer line block outer

/-- Reads a directive line. -/
def read (setup : Setup) (line : DirectiveLine) (state : State) : Except Fault State :=
  match line.directive with
  | .opens opener => state.opens setup opener line
  | .closes closer => state.closes setup closer line

/-- Reads the end of the source: no branch may be open, and the rest is top-level text. -/
def finish (setup : Setup) (state : State) : Except Fault State :=
  match state.blocks with
  | block :: _ => .error (.neverClosed (block.opened.line setup.source) block.guard)
  | [] =>
      ({ state with finished := true }).topLevel setup
        ⟨state.pendingFrom, Text.size setup.source⟩

/-- The end of a scan that met an error: what was buffered is lost. -/
def halt (state : State) : State :=
  { state with buffer := [], ready := [], finished := true }

/-- The end of a scan that met an error at a directive line; a closing line has left its branch. -/
def haltAt (line : DirectiveLine) (state : State) : State :=
  match line.directive with
  | .opens _ => state.halt
  | .closes _ => { state with blocks := state.blocks.tail }.halt

theorem topLevel_blocks {setup : Setup} {region : Span} {state after : State}
    (h : state.topLevel setup region = .ok after) : after.blocks = state.blocks := by
  obtain ⟨entities, _, rfl⟩ := map_eq_ok_iff.mp h
  rfl

theorem close_blocks {setup : Setup} {closer : Closer} {line : DirectiveLine}
    {state after : State} (h : state.closes setup closer line = .ok after) :
    ∃ block outer, state.blocks = block :: outer ∧
      after.blocks = match closer with
        | .alternative => block.alternative line.span :: outer
        | .final => outer := by
  unfold closes at h
  split at h
  · cases h
  · rename_i block outer hBlocks
    obtain ⟨entities, _, rfl⟩ := map_eq_ok_iff.mp h
    refine ⟨block, outer, hBlocks, ?_⟩
    cases closer with
    | alternative => rfl
    | final =>
        simp only [leave]
        split <;> rfl

end State

end ValueNames.Scan
