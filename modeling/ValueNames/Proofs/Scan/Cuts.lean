import ValueNames.Proofs.Conditional.LineReader
import ValueNames.Proofs.Finder
import ValueNames.Proofs.Scan.FinderOrder
import ValueNames.Proofs.Scan.Outputs

/-!
# What a scan cuts out of its source

A scan cuts out a piece of its source to weigh the braces in it, and gives a region of the
source to every finder. Where these pieces begin comes from different moments: the end of an
opening line, an `#else` line, the end of the last outermost block. They end where a
directive line begins, or with the source.

All of them lie within the source, so that cutting them out never fails, and with the finders
of a header no call of a scan fails for a reason other than a faulty nesting or a malformed
enumeration.

## Main results

* `State.outputs_congr` — the finders get no other region than those listed.
* `State.cutsOut_of_mem_cuts` — the pieces lie within the source.
* `State.read_spec`, `State.outputs_spec` — what is handed out has a place, and which faults
  there are.
* `calls_stay_within_source` — all of this for the calls of a scan with the finders of a header.
-/

namespace ValueNames

open Text Conditional

/-- Whether a region can be cut out of a source. -/
structure Span.CutsOut (source : Text) (region : Span) : Prop where
  start_le_stop : region.start ≤ region.stop
  stop_le_size : region.stop ≤ size source
  isBoundary_start : IsBoundary source region.start
  isBoundary_stop : IsBoundary source region.stop

theorem Span.CutsOut.of_boundaries {source : Text} {start stop : Nat}
    (hStart : IsBoundary source start) (hStop : IsBoundary source stop) (h : start ≤ stop) :
    Span.CutsOut source ⟨start, stop⟩ :=
  ⟨h, hStop.le_size, hStart, hStop⟩

/-- What can be cut out has a text. -/
theorem Span.CutsOut.exists_text {source : Text} {region : Span} (h : region.CutsOut source) :
    ∃ text, regionText source region = .ok text := by
  obtain ⟨text, hText⟩ := exists_slice? h.isBoundary_start h.isBoundary_stop h.start_le_stop
  exact ⟨text, regionText_eq_ok_iff.mpr hText⟩

/-- A faulty nesting, or an enumeration that is malformed. -/
def Fault.IsOfSource : Fault → Prop
  | strayCloser _ _ | neverClosed _ _ | unnamedEnum _ | emptyEnum _ => True
  | _ => False

namespace Scan

/-- A piece of the source that a scan cuts out. -/
inductive Cut
  /-- Text outside all blocks whose braces are weighed. -/
  | weighed (region : Span)
  /-- A region that every finder looks at. -/
  | searched (region : Span)
deriving DecidableEq, Repr

def Cut.region : Cut → Span
  | weighed region => region
  | searched region => region

/-! ## The pieces that are cut out -/

namespace State

/-- What is cut out when a directive line is read. -/
def cutsAt (setup : Setup) (line : DirectiveLine) (state : State) : List Cut :=
  match line.directive, state.blocks with
  | .opens _, [] =>
      let pending : Span := ⟨state.pendingFrom, line.span.start⟩
      .weighed pending ::
        if braceOpen setup.source pending.start pending.stop = false ∧ pending.start < pending.stop
          then [.searched pending]
        else []
  | .opens _, _ :: _ => []
  | .closes _, [] => []
  | .closes _, block :: _ => [.searched ⟨block.opened.stop, line.span.start⟩]

/-- What is cut out at the end of the source. -/
def cutsAtEnd (setup : Setup) (state : State) : List Cut :=
  match state.blocks with
  | [] =>
      if state.pendingFrom < size setup.source then
        [.searched ⟨state.pendingFrom, size setup.source⟩]
      else []
  | _ :: _ => []

/-- What is cut out from a state on, up to the first fault. -/
def cuts (setup : Setup) (state : State) : List DirectiveLine → List Cut
  | [] => state.cutsAtEnd setup
  | line :: rest =>
      state.cutsAt setup line ++
        match state.read setup line with
        | .ok next => next.cuts setup rest
        | .error _ => []

end State

/-- What the calls of a scan cut out of its source. -/
def Setup.cuts (setup : Setup) : List Cut :=
  State.initial.cuts setup (directiveLines setup.source)

/-! ## The finders get no other region -/

section Congruence

variable {setup : Setup} {others : List Finder}

/-- Whether other finders find the same in a region. -/
def Setup.SameIn (setup : Setup) (others : List Finder) (region : Span) : Prop :=
  others.map (·.find setup.source region) = setup.finders.map (·.find setup.source region)

theorem Setup.look_congr {region : Span} (h : setup.SameIn others region) :
    (setup.withFinders others).look region = setup.look region := by
  have hLook : ∀ finders : List Finder, finders.mapM (placedBy setup.source region) =
      (finders.map (·.find setup.source region)).mapM fun found =>
        found.bind (·.mapM placeEntity) := by
    intro finders
    rw [List.mapM_map]
    rfl
  rw [look, look, withFinders]
  simp only
  rw [hLook, hLook, h]

theorem State.topLevel_congr {region : Span}
    (h : region.start < region.stop → setup.SameIn others region) (state : State) :
    state.topLevel (setup.withFinders others) region = state.topLevel setup region := by
  rw [topLevel, topLevel]
  split
  · rename_i hText
    rw [Setup.look_congr (h hText)]
  · rfl

/-- Reading a line depends on the finders only through the region they get. -/
theorem State.read_congr {line : DirectiveLine} {state : State}
    (h : ∀ region, .searched region ∈ state.cutsAt setup line → setup.SameIn others region) :
    state.read (setup.withFinders others) line = state.read setup line := by
  rw [read, read]
  cases hLine : line.directive with
  | opens opener =>
      simp only
      rw [opens, opens]
      split
      · rename_i hBlocks
        show (regionText setup.source ⟨state.pendingFrom, line.span.start⟩).bind _ =
          (regionText setup.source ⟨state.pendingFrom, line.span.start⟩).bind _
        cases hText : regionText setup.source ⟨state.pendingFrom, line.span.start⟩ with
        | error fault => rfl
        | ok text =>
            simp only [Except.bind]
            split
            · rfl
            · rename_i hClosed
              have hBrace : braceOpen setup.source state.pendingFrom line.span.start = false := by
                rw [braceOpen, regionText_eq_ok_iff.mp hText, Option.any_some]
                exact Bool.not_eq_true _ ▸ hClosed
              rw [topLevel_congr]
              intro hSome
              refine h _ ?_
              simp only at hSome
              simp [cutsAt, hLine, hBlocks, hBrace, hSome]
      · rfl
  | closes closer =>
      simp only
      rw [closes, closes]
      cases hBlocks : state.blocks with
      | nil => rfl
      | cons block outer =>
          have hSame := h ⟨block.opened.stop, line.span.start⟩ (by simp [cutsAt, hLine, hBlocks])
          simp only [Setup.look_congr hSame]
          rfl

theorem State.finish_congr {state : State}
    (h : ∀ region, .searched region ∈ state.cutsAtEnd setup → setup.SameIn others region) :
    state.finish (setup.withFinders others) = state.finish setup := by
  rw [finish, finish]
  cases hBlocks : state.blocks with
  | nil =>
      refine topLevel_congr (fun hText => h _ ?_) _
      have hSome : state.pendingFrom < size setup.source := hText
      simp only [cutsAtEnd, hBlocks, if_pos hSome]
      exact List.mem_singleton.mpr rfl
  | cons block outer => rfl

/-- What is handed out depends on the finders only through the regions they get. -/
theorem State.outputs_congr {lines : List DirectiveLine} {state : State}
    (h : ∀ region, .searched region ∈ state.cuts setup lines → setup.SameIn others region) :
    state.outputs (setup.withFinders others) lines = state.outputs setup lines := by
  induction lines generalizing state with
  | nil => rw [outputs, outputs, finish_congr h]
  | cons line rest ih =>
      rw [outputs, outputs, read_congr fun region hRegion => h region (List.mem_append_left _ hRegion)]
      cases hRead : state.read setup line with
      | error fault => rfl
      | ok next =>
          refine ih fun region hRegion => h region (List.mem_append_right _ ?_)
          rw [hRead]
          exact hRegion

end Congruence

/-! ## The pieces lie within the source -/

section Within

variable {setup : Setup} {state : State} {bound : Nat}

theorem State.cutsOut_of_mem_cutsAt {line : DirectiveLine}
    (hFits : state.outline.Fits setup.source bound) (hStands : line.StandsIn setup.source)
    (hBound : bound ≤ line.span.start) {cut : Cut} (hCut : cut ∈ state.cutsAt setup line) :
    cut.region.CutsOut setup.source := by
  obtain ⟨⟨hPending, hPendingStart⟩, hBlocks⟩ := hFits
  have hStart := hStands.isBoundary_start
  rw [cutsAt] at hCut
  split at hCut
  · have hRegion : Span.CutsOut setup.source ⟨state.pendingFrom, line.span.start⟩ :=
      .of_boundaries (isBoundary_of_start hPendingStart) hStart (Nat.le_trans hPending hBound)
    rcases List.mem_cons.mp hCut with rfl | hCut
    · exact hRegion
    · split at hCut
      · obtain rfl := List.mem_singleton.mp hCut
        exact hRegion
      · cases hCut
  · cases hCut
  · cases hCut
  · rename_i block outer _ hSome
    obtain rfl := List.mem_singleton.mp hCut
    have hBlock : block ∈ state.outline.blocks := by
      rw [State.outline, hSome]
      exact List.mem_cons_self
    obtain ⟨_, hStop, hLineEnd⟩ := hBlocks block hBlock
    exact .of_boundaries hLineEnd.isBoundary hStart (Nat.le_trans hStop hBound)

theorem State.cutsOut_of_mem_cutsAtEnd (hFits : state.outline.Fits setup.source bound)
    {cut : Cut} (hCut : cut ∈ state.cutsAtEnd setup) : cut.region.CutsOut setup.source := by
  rw [cutsAtEnd] at hCut
  split at hCut
  · split at hCut
    · rename_i hText
      obtain rfl := List.mem_singleton.mp hCut
      exact .of_boundaries (isBoundary_of_start hFits.pending.2) (isBoundary_size setup.source)
        (Nat.le_of_lt hText)
    · cases hCut
  · cases hCut

/-- The pieces that a scan cuts out lie within its source. -/
theorem State.cutsOut_of_mem_cuts {lines : List DirectiveLine}
    (hFits : state.outline.Fits setup.source bound) (hLines : Spaced setup.source bound lines)
    {cut : Cut} (hCut : cut ∈ state.cuts setup lines) : cut.region.CutsOut setup.source := by
  induction lines generalizing state bound with
  | nil => exact cutsOut_of_mem_cutsAtEnd hFits hCut
  | cons line rest ih =>
      obtain ⟨hBound, hStands, hRest⟩ := hLines
      rcases List.mem_append.mp hCut with hCut | hCut
      · exact cutsOut_of_mem_cutsAt hFits hStands hBound hCut
      · split at hCut
        · rename_i next hRead
          exact ih (fits_of_read hFits hStands hBound hRead) hRest hCut
        · cases hCut

theorem Setup.cutsOut_of_mem_cuts {cut : Cut} (h : cut ∈ setup.cuts) :
    cut.region.CutsOut setup.source :=
  State.cutsOut_of_mem_cuts Outline.fits_initial (spaced_directiveLines setup.source) h

end Within

/-! ## What is handed out, and which faults there are -/

/-- Whether an item has a place: all do but a group without definitions. -/
def HasPlace (placed : Placed) : Prop :=
  ∀ entity, placed.item = .entity entity → entity.span?.isSome = true

/-- The finders of a scan fail only at malformed enumerations. -/
def Setup.FailsAtSource (setup : Setup) : Prop :=
  ∀ finder ∈ setup.finders, ∀ region text fault, regionText setup.source region = .ok text →
    finder.find setup.source region = .error fault → fault.IsOfSource

section Outputs

variable {setup : Setup} {state : State} {bound : Nat}

/-- A traversal fails at one of its elements. -/
theorem exists_of_mapM_eq_error {α β : Type} {xs : List α} {f : α → Except Fault β} {fault : Fault}
    (h : xs.mapM f = .error fault) : ∃ x ∈ xs, f x = .error fault := by
  induction xs with
  | nil => cases h
  | cons x xs ih =>
      rw [List.mapM_cons] at h
      cases hFirst : f x with
      | error own =>
          rw [hFirst] at h
          cases h
          exact ⟨x, List.mem_cons_self, hFirst⟩
      | ok own =>
          rw [hFirst] at h
          cases hRest : xs.mapM f with
          | error other =>
              rw [hRest] at h
              cases h
              obtain ⟨y, hMem, hy⟩ := ih hRest
              exact ⟨y, List.mem_cons_of_mem x hMem, hy⟩
          | ok others =>
              rw [hRest] at h
              cases h

theorem hasPlace_of_mem_seen {region : Span} {placed : Placed} (h : placed ∈ setup.seen region) :
    HasPlace placed := by
  obtain ⟨_, _, _, _, entity, _, hPlaced⟩ := Setup.mem_seen_iff.mp h
  obtain ⟨span, hSpan, rfl⟩ := Option.map_eq_some_iff.mp hPlaced
  intro own hOwn
  cases hOwn
  rw [hSpan]
  rfl

/-- Everything found in a part has a place. -/
theorem hasPlace_of_mem_items (hInside : setup.FindsInside) {part : Part} {found : List Placed}
    (h : setup.items part = .ok found) {placed : Placed} (hPlaced : placed ∈ found) :
    HasPlace placed := by
  obtain rfl := Setup.items_eq hInside h
  intro entity hEntity
  have hSeen := Setup.mem_seen_of_mem_itemsOf hPlaced (by rw [hEntity]; rfl)
  exact hasPlace_of_mem_seen hSeen entity hEntity

/-- Looking at a region with a text fails only at a malformed enumeration. -/
theorem isOfSource_of_look (hInside : setup.FindsInside) (hFails : setup.FailsAtSource)
    {region : Span} {text : Text} (hText : regionText setup.source region = .ok text)
    {fault : Fault} (h : setup.look region = .error fault) : fault.IsOfSource := by
  cases hLists : setup.finders.mapM (placedBy setup.source region) with
  | ok lists =>
      rw [Setup.look, hLists] at h
      cases h
  | error own =>
      rw [Setup.look, hLists] at h
      cases h
      obtain ⟨finder, hFinder, hPlaced⟩ := exists_of_mapM_eq_error hLists
      rw [placedBy] at hPlaced
      cases hFind : finder.find setup.source region with
      | error own =>
          rw [hFind] at hPlaced
          cases hPlaced
          exact hFails finder hFinder region text _ hText hFind
      | ok entities =>
          rw [hFind] at hPlaced
          obtain ⟨entity, hEntity, hFault⟩ := exists_of_mapM_eq_error hPlaced
          obtain ⟨span, hSpan, _⟩ := hInside finder hFinder region entities hFind entity hEntity
          have hOk := placeEntity_eq_ok_iff.mpr
            (show entity.placed? = some ⟨span.start, .entity entity⟩ by rw [Entity.placed?, hSpan]; rfl)
          rw [hOk] at hFault
          cases hFault

theorem isOfSource_of_items (hInside : setup.FindsInside) (hFails : setup.FailsAtSource)
    {part : Part} (hPart : part.Fits setup.source) {fault : Fault}
    (h : setup.items part = .error fault) : fault.IsOfSource := by
  obtain ⟨text, hText⟩ := hPart.exists_text
  cases part with
  | topLevel region =>
      rw [Setup.items] at h
      split at h
      · exact isOfSource_of_look hInside hFails hText h
      · cases h
  | branch scope outermost =>
      rw [Setup.items] at h
      cases hLook : setup.look scope.region with
      | error own =>
          rw [hLook] at h
          cases h
          exact isOfSource_of_look hInside hFails hText hLook
      | ok found =>
          rw [hLook] at h
          cases h

/-- An outline fails only at a closing line without an open branch. -/
theorem Outline.isOfSource_of_read {source : Text} {line : DirectiveLine} {outline : Outline}
    {fault : Fault} (h : outline.read source line = .error fault) : fault.IsOfSource := by
  obtain ⟨blocks, pendingFrom, embedded⟩ := outline
  cases hLine : line.directive with
  | opens opener => cases blocks <;> simp [Outline.read, hLine] at h
  | closes closer =>
      cases blocks with
      | nil =>
          cases closer <;>
          · simp only [Outline.read, hLine, Except.error.injEq] at h
            exact h ▸ trivial
      | cons block outer =>
          cases closer with
          | alternative => simp [Outline.read, hLine] at h
          | final => cases outer <;> simp [Outline.read, hLine] at h

/-- What reading a line finds has a place, and it fails only for a reason in the source. -/
theorem State.found_spec (hInside : setup.FindsInside) (hFails : setup.FailsAtSource)
    {line : DirectiveLine} (hFits : state.outline.Fits setup.source bound)
    (hStands : line.StandsIn setup.source) (hBound : bound ≤ line.span.start) :
    (∀ items, state.found setup line = .ok items → ∀ placed ∈ items, HasPlace placed) ∧
      ∀ fault, state.found setup line = .error fault → fault.IsOfSource := by
  rw [State.found]
  cases hPart : state.outline.part? setup.source line with
  | none =>
      refine ⟨?_, ?_⟩
      · rintro items hItems placed hPlaced
        cases hItems
        cases hPlaced
      · rintro fault hFault
        cases hFault
  | some part =>
      refine ⟨?_, ?_⟩
      · intro items hItems placed hPlaced
        exact hasPlace_of_mem_items hInside hItems hPlaced
      · intro fault hFault
        exact isOfSource_of_items hInside hFails (hFits.part hStands hBound hPart).1 hFault

/-- What waits in a state, to be handed out or to be ordered, has a place. -/
def State.Waits (state : State) : Prop := ∀ placed ∈ state.ready ++ state.buffer, HasPlace placed

theorem State.Waits.of_mem_ready (h : state.Waits) {placed : Placed}
    (hPlaced : placed ∈ state.ready) : HasPlace placed :=
  h placed (List.mem_append_left _ hPlaced)

/-- What becomes ready was buffered or is found now. -/
theorem State.Waits.ordered (h : state.Waits) {items : List Placed}
    (hItems : ∀ placed ∈ items, HasPlace placed) :
    ∀ placed ∈ state.ready ++ Placed.ordered (state.buffer ++ items), HasPlace placed := by
  intro placed hPlaced
  rcases List.mem_append.mp hPlaced with hReady | hOrdered
  · exact h.of_mem_ready hReady
  · rcases List.mem_append.mp (Placed.mem_of_mem_ordered hOrdered) with hBuffer | hFound
    · exact h placed (List.mem_append_right _ hBuffer)
    · exact hItems placed hFound

theorem State.Waits.advance (h : state.Waits) {items : List Placed}
    (hItems : ∀ placed ∈ items, HasPlace placed) (next : Outline) (flushes : Bool) :
    (state.advance next flushes items).Waits := by
  cases flushes with
  | true =>
      intro placed hPlaced
      have hReady : placed ∈ state.ready ++ Placed.ordered (state.buffer ++ items) := by
        simpa [State.advance] using hPlaced
      exact h.ordered hItems placed hReady
  | false =>
      intro placed hPlaced
      have hAll : placed ∈ (state.ready ++ state.buffer) ++ items := by
        simpa [State.advance, or_assoc] using hPlaced
      rcases List.mem_append.mp hAll with hOld | hNew
      · exact h placed hOld
      · exact hItems placed hNew

/-- Reading a line keeps what waits in place, and fails only for a reason in the source. -/
theorem State.read_spec (hInside : setup.FindsInside) (hFails : setup.FailsAtSource)
    {line : DirectiveLine} (hFits : state.outline.Fits setup.source bound)
    (hStands : line.StandsIn setup.source) (hBound : bound ≤ line.span.start)
    (hWaits : state.Waits) :
    (∀ next, state.read setup line = .ok next → next.Waits) ∧
      ∀ fault, state.read setup line = .error fault → fault.IsOfSource := by
  obtain ⟨text, hText⟩ := exists_slice? (isBoundary_of_start hFits.pending.2)
    hStands.isBoundary_start (Nat.le_trans hFits.pending.1 hBound)
  obtain ⟨hItems, hFaults⟩ := found_spec hInside hFails hFits hStands hBound
  rw [read_eq hText]
  cases hOutline : state.outline.read setup.source line with
  | error own =>
      refine ⟨fun _ hOk => (by cases hOk), fun fault hFault => ?_⟩
      cases hFault
      exact Outline.isOfSource_of_read hOutline
  | ok outline =>
      cases hFound : state.found setup line with
      | error own =>
          refine ⟨fun _ hOk => (by cases hOk), fun fault hFault => ?_⟩
          cases hFault
          exact hFaults own hFound
      | ok items =>
          refine ⟨fun next hNext => ?_, fun _ hFault => (by cases hFault)⟩
          cases hNext
          exact hWaits.advance (hItems items hFound) outline _

/-- The same for the end of the source. -/
theorem State.finish_spec (hInside : setup.FindsInside) (hFails : setup.FailsAtSource)
    (hFits : state.outline.Fits setup.source bound) (hSize : bound ≤ size setup.source)
    (hWaits : state.Waits) :
    (∀ last, state.finish setup = .ok last → ∀ placed ∈ last.ready, HasPlace placed) ∧
      ∀ fault, state.finish setup = .error fault → fault.IsOfSource := by
  rw [finish]
  cases hBlocks : state.blocks with
  | cons block outer =>
      refine ⟨fun _ hOk => (by cases hOk), fun fault hFault => ?_⟩
      cases hFault
      trivial
  | nil =>
      have hPart : Part.Fits setup.source (.topLevel ⟨state.pendingFrom, size setup.source⟩) :=
        ⟨hFits.pending.2, isBoundary_size setup.source, Nat.le_trans hFits.pending.1 hSize,
          Nat.le_refl _⟩
      simp only [topLevel_eq]
      cases hItems : setup.items (.topLevel ⟨state.pendingFrom, size setup.source⟩) with
      | error own =>
          refine ⟨fun _ hOk => (by cases hOk), fun fault hFault => ?_⟩
          cases hFault
          exact isOfSource_of_items hInside hFails hPart hItems
      | ok items =>
          refine ⟨fun last hLast => ?_, fun _ hFault => (by cases hFault)⟩
          cases hLast
          exact hWaits.ordered fun placed => hasPlace_of_mem_items hInside hItems

/-- A scan hands out only what has a place, and fails only for a reason in the source. -/
theorem State.outputs_spec (hInside : setup.FindsInside) (hFails : setup.FailsAtSource)
    {lines : List DirectiveLine} (hFits : state.outline.Fits setup.source bound)
    (hLines : Spaced setup.source bound lines) (hSize : bound ≤ size setup.source)
    (hWaits : state.Waits) :
    (∀ placed ∈ (state.outputs setup lines).1, HasPlace placed) ∧
      ∀ fault ∈ (state.outputs setup lines).2, fault.IsOfSource := by
  induction lines generalizing state bound with
  | nil =>
      obtain ⟨hLast, hFault⟩ := finish_spec hInside hFails hFits hSize hWaits
      rw [outputs]
      cases hFinish : state.finish setup with
      | error own =>
          refine ⟨fun placed => hWaits.of_mem_ready, fun fault hOwn => ?_⟩
          exact hFault fault (hFinish.trans (congrArg Except.error (Option.some.inj hOwn)))
      | ok last => exact ⟨hLast last hFinish, fun _ hFault => (by cases hFault)⟩
  | cons line rest ih =>
      obtain ⟨hBound, hStands, hRest⟩ := hLines
      obtain ⟨hNext, hFault⟩ := read_spec hInside hFails hFits hStands hBound hWaits
      rw [outputs]
      cases hRead : state.read setup line with
      | error own =>
          refine ⟨fun placed => hWaits.of_mem_ready, fun fault hOwn => ?_⟩
          exact hFault fault (hRead.trans (congrArg Except.error (Option.some.inj hOwn)))
      | ok next =>
          have hStop := hStands.isLineEnd_stop.isBoundary.le_size
          exact ih (fits_of_read hFits hStands hBound hRead) hRest hStop (hNext next hRead)

end Outputs

/-! ## Calls -/

/-- What a call gives, told from the outputs. -/
theorem Cursor.call_eq_outputs (setup : Setup) (n : Nat) :
    (Cursor.start setup).call n =
      let outputs := State.initial.outputs setup (directiveLines setup.source)
      match outputs.1[n]? with
      | some placed => .item placed
      | none => if n = outputs.1.length then .ofFault? outputs.2 else .done := by
  obtain ⟨last, hGives⟩ : Cursor.GivesOutputs setup .initial (directiveLines setup.source) :=
    Cursor.givesOutputs rfl
  exact hGives.call_eq n

/-- What the calls give depends on the finders only through the regions they get. -/
theorem call_congr {setup : Setup} {others : List Finder}
    (h : ∀ region, .searched region ∈ setup.cuts → setup.SameIn others region) (n : Nat) :
    (Cursor.start (setup.withFinders others)).call n = (Cursor.start setup).call n := by
  have hOutputs : State.initial.outputs (setup.withFinders others)
      (directiveLines (setup.withFinders others).source) =
        State.initial.outputs setup (directiveLines setup.source) := State.outputs_congr h
  rw [Cursor.call_eq_outputs, Cursor.call_eq_outputs, hOutputs]

/-- A call hands out only what has a place, and fails only for a reason in the source. -/
theorem call_spec {setup : Setup} (hInside : setup.FindsInside) (hFails : setup.FailsAtSource)
    (n : Nat) :
    (∀ placed, (Cursor.start setup).call n = .item placed → HasPlace placed) ∧
      ∀ fault, (Cursor.start setup).call n = .failed fault → fault.IsOfSource := by
  obtain ⟨hItems, hFault⟩ := State.outputs_spec hInside hFails Outline.fits_initial
    (spaced_directiveLines setup.source) (Nat.zero_le _) (fun placed hPlaced => by cases hPlaced)
  rw [Cursor.call_eq_outputs]
  generalize State.initial.outputs setup (directiveLines setup.source) = outputs at hItems hFault
  obtain ⟨items, fault⟩ := outputs
  simp only at hItems hFault ⊢
  cases hItem : items[n]? with
  | some placed =>
      refine ⟨?_, by simp⟩
      rintro own hOwn
      cases hOwn
      exact hItems placed (List.mem_of_getElem? hItem)
  | none =>
      simp only
      split
      · refine ⟨fun placed hPlaced => absurd hPlaced (Outcome.ofFault?_ne_item fault placed), ?_⟩
        cases fault with
        | none => simp [Outcome.ofFault?]
        | some fault =>
            rintro own hOwn
            cases hOwn
            exact hFault fault rfl
      · simp

end Scan

/-- An enumeration cannot be put together only if it is malformed. -/
theorem isOfSource_of_ofParts {tag body typedefName : Text} {span : Span} {fault : Fault}
    (h : Enumeration.ofParts tag body typedefName span = .error fault) :
    fault.IsOfSource := by
  unfold Enumeration.ofParts at h
  split at h
  · cases h
    trivial
  · split at h
    · cases h
      trivial
    · split at h <;> cases h

/-- The finders of a header fail only at malformed enumerations. -/
theorem failsAtSource_finders {settings : Settings} {finders : List Finder}
    (h : settings.finders = .ok finders) (source : Text) (unguardedOutermost : Bool) :
    (Scan.Setup.mk source finders unguardedOutermost).FailsAtSource := by
  obtain ⟨macros, hMacros, rfl⟩ := map_eq_ok_iff.mp h
  intro finder hFinder region text fault hText hFind
  simp only [List.mem_cons, List.not_mem_nil, or_false] at hFinder
  simp only at hText hFind
  rcases hFinder with rfl | rfl
  · rw [Finder.enumerations] at hFind
    simp only [hText] at hFind
    obtain ⟨⟨found, span⟩, _, hFault⟩ := Scan.exists_of_mapM_eq_error hFind
    rw [Finder.enumerationOf] at hFault
    cases hParts : Enumeration.ofParts found.tag found.body found.typedefName
        (span.shift region.start) with
    | ok declared =>
        rw [hParts] at hFault
        cases hFault
    | error own =>
        rw [hParts] at hFault
        cases hFault
        exact isOfSource_of_ofParts hParts
  · unfold Finder.macroGroup at hMacros
    split at hMacros
    · cases hMacros
    · cases hMacros
      simp only [hText] at hFind
      cases hFind

/-- A find in the text of a region, moved to its place, lies within the source. -/
theorem shift_within {source text : Text} {region : Span} {α : Type} {recogniser : Recogniser α}
    (hText : regionText source region = .ok text) {find : α × Span}
    (hFind : find ∈ recogniser.search text) :
    (find.2.shift region.start).start ≤ (find.2.shift region.start).stop ∧
      (find.2.shift region.start).stop ≤ size source := by
  obtain ⟨front, back, rfl, hStart, _⟩ := slice?_eq_some_iff.mp (regionText_eq_ok_iff.mp hText)
  have hStop := Recogniser.mem_search_stop hFind
  obtain ⟨_, taken, _, _, hSpan, _⟩ := Recogniser.exists_read_of_mem_search hFind
  simp only [Span.shift, size_append]
  rw [hSpan] at hStop ⊢
  simp only at hStop ⊢
  omega

/-- A keyword that ends no branch names an opener. -/
theorem parse_of_mem_matches {source : Text} {found : KeywordLine}
    (h : found ∈ patternMatches source) :
    found.keyword ∈ ["else".toList, "endif".toList] ∨
      ∃ opener, Opener.parse found.keyword = .ok opener := by
  obtain ⟨directive, hKeyword⟩ := exists_directive_of_mem_matches h
  rw [hKeyword]
  cases directive with
  | opens opener => exact .inr ⟨opener, Opener.parse_word opener⟩
  | closes closer => cases closer <;> exact .inl (by decide)

namespace Scan

/-- A scan for enumerations and for the macros of a lead never leaves its source. -/
structure Setup.StaysWithin (lead : Text) (setup : Setup) : Prop where
  /-- The texts whose braces are weighed, and the regions the finders get, can be cut out. -/
  cutsOut : ∀ cut ∈ setup.cuts, cut.region.CutsOut setup.source
  /-- The finders get no other region: what they would find elsewhere does not matter. -/
  regions : ∀ others, (∀ region, .searched region ∈ setup.cuts → setup.SameIn others region) →
    ∀ n, (Cursor.start (setup.withFinders others)).call n = (Cursor.start setup).call n
  /-- What is read off a region lies within the source when it is moved to its place there. -/
  spans : ∀ region text, .searched region ∈ setup.cuts →
    regionText setup.source region = .ok text →
    ∀ span ∈ (Enumeration.declaration.search text).map Prod.snd ++
        ((MacroGroup.definition lead).search text).map Prod.snd,
      (span.shift region.start).start ≤ (span.shift region.start).stop ∧
      (span.shift region.start).stop ≤ size setup.source ∧
      (size setup.source < UInt64.size →
        span.shift? region.start = some (span.shift region.start))
  /-- A keyword that ends no branch names an opener. -/
  keywords : ∀ found ∈ patternMatches setup.source,
    found.keyword ∈ ["else".toList, "endif".toList] ∨
      ∃ opener, Opener.parse found.keyword = .ok opener
  /-- A group that is handed out has a definition, so that it has a place. -/
  groups : ∀ n offset group,
    (Cursor.start setup).call n = .item ⟨offset, .entity (.macroGroup group)⟩ →
      group.definitions ≠ [] ∧ group.span?.isSome = true
  /-- A call fails only at a faulty nesting or a malformed enumeration. -/
  faults : ∀ n fault, (Cursor.start setup).call n = .failed fault → fault.IsOfSource

/-- A scan with the finders of a header stays within its source, whatever the source is. -/
theorem calls_stay_within_source {settings : Settings} (hLead : settings.macroLead ≠ []) :
    ∃ finders, settings.finders = .ok finders ∧ ∀ source unguardedOutermost,
      Setup.StaysWithin settings.macroLead ⟨source, finders, unguardedOutermost⟩ := by
  obtain ⟨finders, hFinders⟩ : ∃ finders, settings.finders = .ok finders := by
    rw [Settings.finders, Finder.macroGroup, if_neg hLead]
    exact ⟨_, rfl⟩
  refine ⟨finders, hFinders, fun source unguardedOutermost => ?_⟩
  have hCalls := call_spec (findsInside_finders hFinders source unguardedOutermost)
    (failsAtSource_finders hFinders source unguardedOutermost)
  refine ⟨fun cut => Setup.cutsOut_of_mem_cuts, fun others => call_congr, ?_,
    fun found => parse_of_mem_matches, ?_, fun n => (hCalls n).2⟩
  · intro region text _ hText span hSpan
    have hWithin : (span.shift region.start).start ≤ (span.shift region.start).stop ∧
        (span.shift region.start).stop ≤ size source := by
      rcases List.mem_append.mp hSpan with hSpan | hSpan
      · obtain ⟨find, hFind, rfl⟩ := List.mem_map.mp hSpan
        exact shift_within hText hFind
      · obtain ⟨find, hFind, rfl⟩ := List.mem_map.mp hSpan
        exact shift_within hText hFind
    refine ⟨hWithin.1, hWithin.2, fun hSize => Span.shift?_eq_some_iff.mpr ⟨rfl, ?_, ?_⟩⟩
    · have hSize : size source < UInt64.size := hSize
      omega
    · have hSize : size source < UInt64.size := hSize
      omega
  · intro n offset group hCall
    have hSpan : group.span?.isSome = true := (hCalls n).1 _ hCall _ rfl
    refine ⟨?_, hSpan⟩
    intro hNone
    rw [MacroGroup.span?, hNone] at hSpan
    cases hSpan

/-- A block that stands inside an enumeration: its text is not cut off before the block. -/
theorem calls_stay_within_embedding :
    let source := "enum e \x7bA,\n#if X\nB\n#endif\n\x7d;".toList
    ({} : Settings).macroLead ≠ [] ∧ ∃ finders, ({} : Settings).finders = .ok finders ∧
      (Setup.mk source finders false).cuts =
        [.weighed ⟨0, 11⟩, .searched ⟨16, 19⟩, .searched ⟨0, 28⟩] ∧
      ∀ cut ∈ (Setup.mk source finders false).cuts, cut.region.CutsOut source := by
  intro source
  have hLead : ({} : Settings).macroLead ≠ [] := by decide
  obtain ⟨finders, hFinders, hStays⟩ := calls_stay_within_source hLead
  refine ⟨hLead, finders, hFinders, ?_, (hStays source false).cutsOut⟩
  cases hFinders
  decide +kernel

end Scan

end ValueNames
