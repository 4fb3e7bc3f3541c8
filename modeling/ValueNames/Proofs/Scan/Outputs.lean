import ValueNames.Proofs.Scan.Calls

/-!
# What the calls of a scan hand out

The items that the calls of a scan hand out, and the fault they may end with, can be told
without calls: read the directive lines one after the other, and then the end.

## Main results

* `Cursor.givesOutputs` — the calls hand out the outputs.
* `collect_eq_outputs` — asking for all items gives the outputs.
* `State.outputs_append` — the outputs after some lines are those of the state they lead to.
-/

namespace ValueNames.Scan

/-- What a call gives that does not hand out an item: the fault, if there is one. -/
def Outcome.ofFault? : Option Fault → Outcome
  | some fault => .failed fault
  | none => .done

theorem Outcome.ofFault?_ne_item (fault : Option Fault) (placed : Placed) :
    ofFault? fault ≠ .item placed := by
  cases fault with
  | some fault => simp [ofFault?]
  | none => simp [ofFault?]

/-- What each call gives, told from the items and the outcome behind them. -/
theorem Cursor.Gives.call_eq {cursor last : Cursor} {items : List Placed} {outcome : Outcome}
    (h : cursor.Gives items outcome last) (n : Nat) :
    cursor.call n =
      match items[n]? with
      | some placed => .item placed
      | none => if n = items.length then outcome else .done := by
  cases hItem : items[n]? with
  | some placed => exact h.call_item hItem
  | none =>
      have hLength := List.getElem?_eq_none_iff.mp hItem
      by_cases hLast : n = items.length
      · simp only [hLast, if_true]
        exact h.call_length
      · simp only [hLast, if_false]
        exact h.call_done (by omega)

/-- What the calls give determines what asking for all items gives. -/
theorem Cursor.Gives.collect_eq {cursor last : Cursor} {items : List Placed}
    {fault : Option Fault} (h : cursor.Gives items (.ofFault? fault) last) :
    cursor.collect = checked fault items := by
  generalize hOutcome : Outcome.ofFault? fault = outcome at h
  induction h with
  | stops hNext _ =>
      rw [Cursor.collect_eq, hNext, ← hOutcome]
      cases fault with
      | some fault => rfl
      | none => rfl
  | item hNext _ ih =>
      rw [Cursor.collect_eq, hNext]
      show (Cursor.collect _).map _ = _
      rw [ih hOutcome]
      cases fault with
      | some fault => rfl
      | none => rfl

namespace State

variable {setup : Setup}

/-- The items handed out from a state on, and the fault behind them, if there is one. -/
def outputs (setup : Setup) (state : State) : List DirectiveLine → List Placed × Option Fault
  | [] =>
      match state.finish setup with
      | .ok last => (last.ready, none)
      | .error fault => (state.ready, some fault)
  | line :: rest =>
      match state.read setup line with
      | .ok next => next.outputs setup rest
      | .error fault => (state.ready, some fault)

/-- Reads some directive lines. -/
def readAll (setup : Setup) (state : State) : List DirectiveLine → Except Fault State
  | [] => .ok state
  | line :: rest => (state.read setup line).bind fun next => next.readAll setup rest

theorem run_eq_readAll (lines : List DirectiveLine) (state : State) :
    state.run setup lines = (state.readAll setup lines).bind (finish setup) := by
  induction lines generalizing state with
  | nil => rfl
  | cons line rest ih =>
      rw [run, readAll]
      cases state.read setup line with
      | error fault => rfl
      | ok next => exact ih next

theorem readAll_append (early late : List DirectiveLine) (state : State) :
    state.readAll setup (early ++ late) =
      (state.readAll setup early).bind fun next => next.readAll setup late := by
  induction early generalizing state with
  | nil => rfl
  | cons line rest ih =>
      rw [List.cons_append, readAll, readAll]
      cases state.read setup line with
      | error fault => rfl
      | ok next => exact ih next

theorem readAll_finished {lines : List DirectiveLine} {state next : State}
    (h : state.readAll setup lines = .ok next) : next.finished = state.finished := by
  induction lines generalizing state with
  | nil =>
      cases h
      rfl
  | cons line rest ih =>
      obtain ⟨middle, hRead, hRest⟩ := bind_eq_ok_iff.mp h
      rw [ih hRest, read_finished hRead]

/-- The outputs after some lines are those of the state that the lines lead to. -/
theorem outputs_append {early : List DirectiveLine} {state next : State}
    (h : state.readAll setup early = .ok next) (late : List DirectiveLine) :
    state.outputs setup (early ++ late) = next.outputs setup late := by
  induction early generalizing state with
  | nil =>
      cases h
      rfl
  | cons line rest ih =>
      obtain ⟨middle, hRead, hRest⟩ := bind_eq_ok_iff.mp h
      rw [List.cons_append, outputs, hRead]
      exact ih hRest

/-- What waits is handed out before everything else. -/
theorem outputs_prepend (front : List Placed) (lines : List DirectiveLine) (state : State) :
    (state.prepend front).outputs setup lines =
      (front ++ (state.outputs setup lines).1, (state.outputs setup lines).2) := by
  induction lines generalizing state with
  | nil =>
      rw [outputs, outputs, finish_prepend]
      cases state.finish setup with
      | error fault => rfl
      | ok last => rfl
  | cons line rest ih =>
      rw [outputs, outputs, read_prepend]
      cases state.read setup line with
      | error fault => rfl
      | ok next => exact ih next

end State

namespace Cursor

variable {setup : Setup} {upcoming : List DirectiveLine}

theorem gives_of_next_eq {cursor other last : Cursor} {items : List Placed} {outcome : Outcome}
    (hNext : cursor.next = other.next) (h : other.Gives items outcome last) :
    cursor.Gives items outcome last := by
  cases h with
  | stops hStop hStops => exact .stops (hNext.trans hStop) hStops
  | item hItem hRest => exact .item (hNext.trans hItem) hRest

/-- Items that wait are given first. -/
theorem gives_ready {state : State} (front : List Placed) {items : List Placed}
    {outcome : Outcome} {last : Cursor}
    (h : (Cursor.mk setup state upcoming).Gives items outcome last) :
    (Cursor.mk setup (state.prepend front) upcoming).Gives (front ++ items) outcome last := by
  induction front with
  | nil => exact h
  | cons placed front ih =>
      have hHead : (state.prepend (placed :: front)).ready =
          placed :: (front ++ state.ready) := rfl
      exact .item (next_ready hHead) ih

/-- At the end of the source only what waits is given. -/
theorem gives_finished {state : State} (hFinished : state.finished = true) :
    (Cursor.mk setup state []).Gives state.ready .done ⟨setup, state.emptied, []⟩ := by
  have hEmpty : (Cursor.mk setup state.emptied []).Gives [] .done ⟨setup, state.emptied, []⟩ :=
    .stops (next_of_finished hFinished rfl) (by simp)
  have hReady := gives_ready state.ready hEmpty
  rwa [State.prepend_emptied, List.append_nil] at hReady

/-- The calls of a cursor give its outputs. -/
def GivesOutputs (setup : Setup) (state : State) (lines : List DirectiveLine) : Prop :=
  ∃ last, (Cursor.mk setup state lines).Gives (state.outputs setup lines).1
    (.ofFault? (state.outputs setup lines).2) last

/-- It is enough to ask a cursor without waiting items. -/
theorem givesOutputs_of_emptied {lines : List DirectiveLine} {state : State}
    (h : GivesOutputs setup state.emptied lines) : GivesOutputs setup state lines := by
  obtain ⟨last, hGives⟩ := h
  have hReady := gives_ready state.ready hGives
  have hOutputs : (state.emptied.prepend state.ready).outputs setup lines = _ :=
    State.outputs_prepend state.ready lines state.emptied
  rw [State.prepend_emptied] at hReady hOutputs
  rw [GivesOutputs, hOutputs]
  exact ⟨last, hReady⟩

/-- A cursor that is not at its end hands out its outputs. -/
theorem givesOutputs {lines : List DirectiveLine} {state : State}
    (hFinished : state.finished = false) : GivesOutputs setup state lines := by
  induction lines generalizing state with
  | nil =>
      apply givesOutputs_of_emptied
      have hUnfinished : state.emptied.finished = false := hFinished
      have hEmpty : state.emptied.ready = [] := rfl
      rw [GivesOutputs, State.outputs]
      cases hFinish : state.emptied.finish setup with
      | error fault =>
          have hNext : (Cursor.mk setup state.emptied []).next =
              (.failed fault, ⟨setup, state.emptied.halt, []⟩) := by
            simp [next, nextFrom, State.nextAtEnd, State.handOut, hEmpty, hUnfinished, hFinish]
          exact ⟨_, .stops hNext (Outcome.ofFault?_ne_item (some fault))⟩
      | ok final =>
          exact ⟨_, gives_of_next_eq (next_finish rfl hFinished hFinish)
            (gives_finished (finish_finished hFinish))⟩
  | cons line rest ih =>
      apply givesOutputs_of_emptied
      have hUnfinished : state.emptied.finished = false := hFinished
      have hEmpty : state.emptied.ready = [] := rfl
      rw [GivesOutputs, State.outputs]
      cases hRead : state.emptied.read setup line with
      | error fault =>
          have hNext : (Cursor.mk setup state.emptied (line :: rest)).next =
              (.failed fault, ⟨setup, state.emptied.haltAt line, rest⟩) := by
            simp [next, nextFrom, hEmpty, hUnfinished, hRead]
          exact ⟨_, .stops hNext (Outcome.ofFault?_ne_item (some fault))⟩
      | ok behind =>
          have hBehind : behind.finished = false := (State.read_finished hRead).trans hFinished
          obtain ⟨last, hGives⟩ := ih hBehind
          exact ⟨last, gives_of_next_eq (next_read rfl hFinished hRead) hGives⟩

end Cursor

/-- Asking a scan for all items gives its outputs, or its fault. -/
theorem collect_eq_outputs (setup : Setup) :
    (Cursor.start setup).collect =
      checked (State.initial.outputs setup (Conditional.directiveLines setup.source)).2
        (State.initial.outputs setup (Conditional.directiveLines setup.source)).1 := by
  obtain ⟨last, hGives⟩ : Cursor.GivesOutputs setup .initial
    (Conditional.directiveLines setup.source) := Cursor.givesOutputs rfl
  exact hGives.collect_eq

end ValueNames.Scan
