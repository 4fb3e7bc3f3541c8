import ValueNames.Proofs.Scan.Run

/-!
# All items of a scan

A cursor hands out the items of a scan one at a time, and reads a directive
line only when none is ready. Asking until the end gives the items of the run
over all directive lines, and no others.

## Main results

* `collect_eq_run` — the items handed out one by one are those of the run.
* `Cursor.fulfils_run` — the cursor at the end is that of the last state of the run.
* `collect_eq_gather` — they are what is found in the parts of the source, ordered
  once, unless the nesting is faulty.
-/

namespace ValueNames.Scan

/-! ## Items that wait -/

namespace State

variable {setup : Setup}

/-- Puts items in front of those that wait. -/
def prepend (front : List Placed) (state : State) : State :=
  { state with ready := front ++ state.ready }

/-- Takes away the items that wait. -/
def emptied (state : State) : State := { state with ready := [] }

theorem prepend_emptied (state : State) : state.emptied.prepend state.ready = state := by
  simp [prepend, emptied]

theorem topLevel_prepend (front : List Placed) (region : Span) (state : State) :
    (state.prepend front).topLevel setup region =
      (state.topLevel setup region).map (prepend front) := by
  rw [topLevel_eq, topLevel_eq]
  cases setup.items (.topLevel region) with
  | error fault => rfl
  | ok found => simp [Except.map, flush, prepend]

theorem leave_prepend (front : List Placed) (closer : Closer) (line : DirectiveLine)
    (block : Block) (outer : List Block) (state : State) :
    (state.prepend front).leave closer line block outer =
      (state.leave closer line block outer).prepend front := by
  cases closer with
  | alternative => rfl
  | final =>
      by_cases hOutermost : outer = [] ∧ state.embedded = false
      · simp [leave, prepend, flush, hOutermost]
      · simp [leave, prepend, hOutermost]

/-- Items that wait have no influence on what a directive line does. -/
theorem read_prepend (front : List Placed) (line : DirectiveLine) (state : State) :
    (state.prepend front).read setup line = (state.read setup line).map (prepend front) := by
  cases hLine : line.directive with
  | opens opener =>
      simp only [read, hLine, opens]
      by_cases hBlocks : state.blocks = []
      · cases hText : regionText setup.source ⟨state.pendingFrom, line.span.start⟩ with
        | error fault => simp [prepend, hBlocks, hText, Except.bind, Except.map]
        | ok text =>
            by_cases hOpen : leavesBraceOpen text = true
            · simp [prepend, hBlocks, hText, hOpen, Except.bind, Except.map, push]
            · have hTop : (state.prepend front).topLevel setup
                  ⟨state.pendingFrom, line.span.start⟩ =
                    (state.topLevel setup ⟨state.pendingFrom, line.span.start⟩).map
                      (prepend front) := topLevel_prepend front _ state
              have hFrom : (state.prepend front).pendingFrom = state.pendingFrom := rfl
              have hNone : (state.prepend front).blocks = [] := hBlocks
              simp only [hBlocks, hNone, hFrom, hText, hOpen, hTop, Except.bind, if_true]
              cases state.topLevel setup ⟨state.pendingFrom, line.span.start⟩ with
              | error fault => rfl
              | ok next => rfl
      · simp [prepend, hBlocks, Except.map, push]
  | closes closer =>
      simp only [read, hLine]
      cases hBlocks : state.blocks with
      | nil =>
          have hNone : (state.prepend front).blocks = [] := hBlocks
          simp [closes, hBlocks, hNone, Except.map]
      | cons block outer =>
          have hSame : (state.prepend front).blocks = block :: outer := hBlocks
          rw [closes_cons hBlocks, closes_cons hSame]
          cases setup.items (.branch ⟨block, line.span.start⟩ (outer = [])) with
          | error fault => rfl
          | ok found =>
              exact congrArg Except.ok (leave_prepend front closer line block outer
                { state with buffer := state.buffer ++ found })

theorem finish_prepend (front : List Placed) (state : State) :
    (state.prepend front).finish setup = (state.finish setup).map (prepend front) := by
  obtain ⟨blocks, pendingFrom, embedded, buffer, ready, finished⟩ := state
  cases blocks with
  | nil => exact topLevel_prepend front _ ⟨[], pendingFrom, embedded, buffer, ready, true⟩
  | cons block outer => rfl

theorem run_prepend (front : List Placed) (lines : List DirectiveLine) (state : State) :
    (state.prepend front).run setup lines = (state.run setup lines).map (prepend front) := by
  induction lines generalizing state with
  | nil => exact finish_prepend front state
  | cons line rest ih =>
      rw [run, run, read_prepend]
      cases state.read setup line with
      | error fault => rfl
      | ok next => exact ih next

/-- Reading a directive line does not finish a scan. -/
theorem read_finished {line : DirectiveLine} {state next : State}
    (h : state.read setup line = .ok next) : next.finished = state.finished := by
  unfold read at h
  split at h
  · unfold opens at h
    split at h
    · obtain ⟨text, _, h⟩ := bind_eq_ok_iff.mp h
      split at h
      · cases h
        rfl
      · obtain ⟨top, hTop, rfl⟩ := map_eq_ok_iff.mp h
        obtain ⟨entities, _, rfl⟩ := map_eq_ok_iff.mp hTop
        rfl
    · cases h
      rfl
  · rename_i closer _
    unfold closes at h
    split at h
    · cases h
    · obtain ⟨entities, _, rfl⟩ := map_eq_ok_iff.mp h
      cases closer with
      | alternative => rfl
      | final =>
          simp only [leave]
          split <;> rfl

end State

/-! ## Asking for all items -/

theorem Cursor.collect_eq (cursor : Cursor) :
    cursor.collect =
      match cursor.next with
      | (.done, _) => .ok []
      | (.failed fault, _) => .error fault
      | (.item placed, rest) => rest.collect.map (placed :: ·) := by
  rw [Cursor.collect]
  split
  · rename_i h
    simp only [h]
  · rename_i h
    simp only [h]
  · rename_i h
    simp only [h]

/-- Handing out the items of a cursor one by one leads to its end. -/
inductive Cursor.Ends : Cursor → List Placed → Cursor → Prop
  | done {cursor last : Cursor} (hNext : cursor.next = (.done, last)) : Ends cursor [] last
  | item {cursor after last : Cursor} {placed : Placed} {items : List Placed}
      (hNext : cursor.next = (.item placed, after)) (hRest : Ends after items last) :
      Ends cursor (placed :: items) last

namespace Cursor

theorem Ends.collect {cursor last : Cursor} {items : List Placed} (h : cursor.Ends items last) :
    cursor.collect = .ok items := by
  induction h with
  | done hNext => rw [collect_eq, hNext]
  | item hNext _ ih =>
      rw [collect_eq, hNext]
      simp only [ih]
      rfl

variable {setup : Setup} {upcoming : List DirectiveLine}

/-- A waiting item is what comes next. -/
theorem next_ready {state : State} {placed : Placed} {ready : List Placed}
    (h : state.ready = placed :: ready) :
    (Cursor.mk setup state upcoming).next =
      (.item placed, ⟨setup, { state with ready }, upcoming⟩) := by
  cases upcoming with
  | nil => simp [next, nextFrom, State.nextAtEnd, State.handOut, h]
  | cons line rest => simp [next, nextFrom, h]

/-- All items that wait are handed out before anything else is done. -/
theorem collect_ready (state : State) (front : List Placed) :
    (Cursor.mk setup (state.prepend front) upcoming).collect =
      (Cursor.mk setup state upcoming).collect.map (front ++ ·) := by
  induction front with
  | nil =>
      have hSame : state.prepend [] = state := rfl
      rw [hSame]
      cases (Cursor.mk setup state upcoming).collect <;> rfl
  | cons placed front ih =>
      have hHead : (state.prepend (placed :: front)).ready =
          placed :: (front ++ state.ready) := rfl
      rw [collect_eq, next_ready hHead]
      show (Cursor.mk setup (state.prepend front) upcoming).collect.map (placed :: ·) = _
      rw [ih]
      cases (Cursor.mk setup state upcoming).collect <;> rfl

theorem ends_ready {state : State} (front : List Placed) {items : List Placed} {last : Cursor}
    (h : (Cursor.mk setup state upcoming).Ends items last) :
    (Cursor.mk setup (state.prepend front) upcoming).Ends (front ++ items) last := by
  induction front with
  | nil => exact h
  | cons placed front ih =>
      have hHead : (state.prepend (placed :: front)).ready =
          placed :: (front ++ state.ready) := rfl
      exact .item (next_ready hHead) ih

/-- With nothing waiting, a cursor goes on as it does behind the next directive line. -/
theorem next_read {state next : State} {line : DirectiveLine} (hReady : state.ready = [])
    (hFinished : state.finished = false) (hRead : state.read setup line = .ok next) :
    (Cursor.mk setup state (line :: upcoming)).next = (Cursor.mk setup next upcoming).next := by
  rw [Cursor.next, Cursor.next, nextFrom]
  simp [hReady, hFinished, hRead]

/-- With nothing waiting, a cursor goes on as it does behind the end of the source. -/
theorem next_finish {state next : State} (hReady : state.ready = [])
    (hFinished : state.finished = false) (hFinish : state.finish setup = .ok next) :
    (Cursor.mk setup state []).next = (Cursor.mk setup next []).next := by
  have hTrue := finish_finished hFinish
  simp [Cursor.next, nextFrom, State.nextAtEnd, State.handOut, hReady, hFinished, hFinish, hTrue]

theorem ends_of_next_eq {cursor other last : Cursor} {items : List Placed}
    (hNext : cursor.next = other.next) (h : other.Ends items last) : cursor.Ends items last := by
  cases h with
  | done hDone => exact .done (hNext.trans hDone)
  | item hItem hRest => exact .item (hNext.trans hItem) hRest

/-- At the end of the source only what waits is handed out. -/
theorem ends_finished {state : State} (hFinished : state.finished = true) :
    (Cursor.mk setup state []).Ends state.ready ⟨setup, state.emptied, []⟩ := by
  have hEmpty : (Cursor.mk setup state.emptied []).Ends [] ⟨setup, state.emptied, []⟩ :=
    .done (next_of_finished hFinished rfl)
  have hReady := ends_ready state.ready hEmpty
  rwa [State.prepend_emptied, List.append_nil] at hReady

/-- What asking for all items of a cursor comes to, told from a run of the scan. -/
def Fulfils (cursor : Cursor) : Except Fault State → Prop
  | .ok final => cursor.Ends final.ready ⟨cursor.setup, final.emptied, []⟩
  | .error fault => cursor.collect = .error fault

theorem fulfils_of_next_eq {state state' : State} {lines lines' : List DirectiveLine}
    {result : Except Fault State}
    (hNext : (Cursor.mk setup state lines).next = (Cursor.mk setup state' lines').next)
    (h : (Cursor.mk setup state' lines').Fulfils result) :
    (Cursor.mk setup state lines).Fulfils result := by
  cases result with
  | ok final => exact ends_of_next_eq hNext h
  | error fault =>
      show Cursor.collect _ = _
      rw [collect_eq, hNext, ← collect_eq]
      exact h

/-- It is enough to ask a cursor without waiting items. -/
theorem fulfils_of_emptied {lines : List DirectiveLine} {state : State}
    (h : (Cursor.mk setup state.emptied lines).Fulfils (state.emptied.run setup lines)) :
    (Cursor.mk setup state lines).Fulfils (state.run setup lines) := by
  rw [← State.prepend_emptied state, State.run_prepend]
  cases hRun : state.emptied.run setup lines with
  | ok final =>
      rw [hRun] at h
      exact ends_ready _ h
  | error fault =>
      rw [hRun] at h
      have hCollect : (Cursor.mk setup state.emptied lines).collect = .error fault := h
      show Cursor.collect _ = _
      rw [collect_ready, hCollect]
      rfl

/--
Asking for all items does what a run of the scan does. If the run succeeds, its
items are handed out one by one, and the cursor at the end is in its state; if
it fails, so does one of the questions.
-/
theorem fulfils_run {lines : List DirectiveLine} {state : State}
    (hFinished : state.finished = false) :
    (Cursor.mk setup state lines).Fulfils (state.run setup lines) := by
  induction lines generalizing state with
  | nil =>
      apply fulfils_of_emptied
      rw [State.run]
      cases hFinish : state.emptied.finish setup with
      | error fault =>
          have hUnfinished : state.emptied.finished = false := hFinished
          have hEmpty : state.emptied.ready = [] := rfl
          show Cursor.collect _ = _
          rw [collect_eq]
          simp [next, nextFrom, State.nextAtEnd, State.handOut, hEmpty, hUnfinished, hFinish]
      | ok final =>
          exact ends_of_next_eq (next_finish rfl hFinished hFinish)
            (ends_finished (finish_finished hFinish))
  | cons line rest ih =>
      apply fulfils_of_emptied
      rw [State.run]
      cases hRead : state.emptied.read setup line with
      | error fault =>
          have hUnfinished : state.emptied.finished = false := hFinished
          have hEmpty : state.emptied.ready = [] := rfl
          show Cursor.collect _ = _
          rw [collect_eq]
          simp [next, nextFrom, hEmpty, hUnfinished, hRead]
      | ok next =>
          have hNext : next.finished = false := (State.read_finished hRead).trans hFinished
          exact fulfils_of_next_eq (next_read rfl hFinished hRead) (ih hNext)

end Cursor

/-- The items handed out one by one are those of the run. -/
theorem collect_eq_run (setup : Setup) :
    (Cursor.start setup).collect =
      (State.initial.run setup (Conditional.directiveLines setup.source)).map State.ready := by
  have hFulfils : (Cursor.start setup).Fulfils
      (State.initial.run setup (Conditional.directiveLines setup.source)) := Cursor.fulfils_run rfl
  cases hRun : State.initial.run setup (Conditional.directiveLines setup.source) with
  | error fault =>
      rw [hRun] at hFulfils
      exact hFulfils
  | ok final =>
      rw [hRun] at hFulfils
      exact Cursor.Ends.collect hFulfils

/-- The items of a scan can be computed by a run. -/
theorem collect_of_run {setup : Setup} {items : List Placed}
    (h : ((State.initial.run setup (Conditional.directiveLines setup.source)).map
      State.ready).toOption = some items) : (Cursor.start setup).collect = .ok items := by
  rw [collect_eq_run]
  cases hRun : (State.initial.run setup (Conditional.directiveLines setup.source)).map
      State.ready with
  | error fault =>
      rw [hRun] at h
      cases h
  | ok found =>
      rw [hRun] at h
      cases h
      rfl

/--
All items of a scan are what is found in the parts of the source, ordered once,
unless the nesting of the directive lines is faulty.
-/
theorem collect_eq_gather {setup : Setup} (hInside : setup.FindsInside) :
    (Cursor.start setup).collect =
      (setup.gather (State.initial.outline.parts setup.source
        (Conditional.directiveLines setup.source))).bind fun found =>
          checked (State.initial.outline.fault? setup.source
            (Conditional.directiveLines setup.source)) (Placed.ordered found) := by
  rw [collect_eq_run, State.run_eq .initial hInside Outline.fits_initial
    (Conditional.spaced_directiveLines setup.source) (Nat.zero_le _) (by simp [State.initial])]
  rfl

/-- A scan succeeds only on balanced lines, and then it orders once what all parts hold. -/
theorem exists_gather_of_collect {setup : Setup} (hInside : setup.FindsInside)
    {items : List Placed} (h : (Cursor.start setup).collect = .ok items) :
    ∃ forest found, Forest.IsOf (Conditional.directiveLines setup.source) forest ∧
      setup.gather (forest.parts setup.source 0 none) = .ok found ∧
      items = Placed.ordered found := by
  rw [collect_eq_gather hInside] at h
  obtain ⟨found, hFound, h⟩ := bind_eq_ok_iff.mp h
  obtain ⟨hFault, rfl⟩ := checked_eq_ok_iff.mp h
  obtain ⟨forest, hForest⟩ := Forest.exists_isOf_iff.mpr ((Outline.fault?_eq_none_iff _).mp hFault)
  rw [Outline.parts_eq_of_isOf hForest] at hFound
  exact ⟨forest, found, hForest, hFound, rfl⟩

/-- What a scan hands out is what is seen in the parts of its forest. -/
theorem eq_ordered_of_collect {setup : Setup} (hInside : setup.FindsInside) {items : List Placed}
    (h : (Cursor.start setup).collect = .ok items) :
    ∃ forest, Forest.IsOf (Conditional.directiveLines setup.source) forest ∧
      items = Placed.ordered ((forest.parts setup.source 0 none).flatMap setup.itemsOf) := by
  obtain ⟨forest, found, hForest, hFound, rfl⟩ := exists_gather_of_collect hInside h
  exact ⟨forest, hForest, congrArg Placed.ordered (Setup.gather_eq hInside hFound)⟩

end ValueNames.Scan
