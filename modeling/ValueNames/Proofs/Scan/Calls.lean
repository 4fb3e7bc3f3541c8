import ValueNames.Proofs.Scan.Collect

/-!
# Calling a scan again and again

Every call of a cursor hands out an item, or a fault, or says that the scan is done.
After some items comes the first outcome of another kind, and from then on the scan is
done and stays as it is.

How far a call reads is counted in tries: a call tries to read on, to a directive line
or to the end of the source, until an item is ready or there is nothing more to read.

## Main results

* `Cursor.exists_gives` — the calls of a cursor come to an end.
* `Gives.call_item`, `Gives.call_length`, `Gives.call_done` — what each call gives.
* `Cursor.upcoming_next` — every try takes one directive line.
-/

namespace ValueNames.Scan

namespace Cursor

/-- The cursor after some calls. -/
def after : Nat → Cursor → Cursor
  | 0, cursor => cursor
  | n + 1, cursor => after n cursor.next.2

/-- What a call gives, counted from zero. -/
def call (n : Nat) (cursor : Cursor) : Outcome := (cursor.after n).next.1

@[simp] theorem call_zero (cursor : Cursor) : cursor.call 0 = cursor.next.1 := rfl

@[simp] theorem call_succ (n : Nat) (cursor : Cursor) :
    cursor.call (n + 1) = cursor.next.2.call n :=
  rfl

/-! ## The end -/

/-- Whether a cursor has come to its end: nothing waits, and nothing is to be read. -/
structure Exhausted (cursor : Cursor) : Prop where
  finished : cursor.state.finished = true
  ready : cursor.state.ready = []

theorem Exhausted.after_eq {cursor : Cursor} (h : cursor.Exhausted) (n : Nat) :
    cursor.after n = cursor := by
  have hNext : cursor.next = (.done, cursor) := next_of_finished h.finished h.ready
  induction n with
  | zero => rfl
  | succ n ih =>
      show cursor.next.2.after n = cursor
      rw [hNext]
      exact ih

theorem Exhausted.call_eq {cursor : Cursor} (h : cursor.Exhausted) (n : Nat) :
    cursor.call n = .done := by
  rw [call, h.after_eq, next_of_finished h.finished h.ready]

end Cursor

/-- What a call leaves behind when it does not hand out an item. -/
theorem nextFrom_stops {setup : Setup} {state : State} {upcoming : List DirectiveLine}
    {outcome : Outcome} {last : Cursor} (h : nextFrom setup state upcoming = (outcome, last))
    (hStops : ∀ placed, outcome ≠ .item placed) :
    last.Exhausted ∧ ∀ fault, outcome = .failed fault → last.state.buffer = [] := by
  induction upcoming generalizing state with
  | nil =>
      unfold nextFrom State.nextAtEnd State.handOut at h
      cases hReady : state.ready with
      | cons placed ready =>
          rw [hReady] at h
          cases h
          exact absurd rfl (hStops placed)
      | nil =>
          rw [hReady] at h
          by_cases hFinished : state.finished = true
          · rw [if_pos hFinished] at h
            cases h
            exact ⟨⟨hFinished, hReady⟩, by simp⟩
          · rw [if_neg hFinished] at h
            cases hFinish : state.finish setup with
            | error fault =>
                rw [hFinish] at h
                cases h
                exact ⟨⟨rfl, rfl⟩, fun _ _ => rfl⟩
            | ok done =>
                rw [hFinish] at h
                cases hNext : done.ready with
                | nil =>
                    simp only [hNext] at h
                    cases h
                    exact ⟨⟨finish_finished hFinish, hNext⟩, by simp⟩
                | cons placed ready =>
                    simp only [hNext] at h
                    cases h
                    exact absurd rfl (hStops placed)
  | cons line upcoming ih =>
      unfold nextFrom at h
      cases hReady : state.ready with
      | cons placed ready =>
          rw [hReady] at h
          cases h
          exact absurd rfl (hStops placed)
      | nil =>
          rw [hReady] at h
          by_cases hFinished : state.finished = true
          · simp only [if_pos hFinished] at h
            cases h
            exact ⟨⟨hFinished, hReady⟩, by simp⟩
          · simp only [if_neg hFinished] at h
            cases hRead : state.read setup line with
            | error fault =>
                rw [hRead] at h
                cases h
                unfold State.haltAt
                split
                · exact ⟨⟨rfl, rfl⟩, fun _ _ => rfl⟩
                · exact ⟨⟨rfl, rfl⟩, fun _ _ => rfl⟩
            | ok next =>
                rw [hRead] at h
                exact ih h

/-! ## All calls -/

/--
`Gives cursor items outcome last`: the calls of the cursor hand out the items one by
one, then comes an outcome that is no item, and the cursor is `last` from then on.
-/
inductive Cursor.Gives : Cursor → List Placed → Outcome → Cursor → Prop
  | stops {cursor last : Cursor} {outcome : Outcome} (hNext : cursor.next = (outcome, last))
      (hStops : ∀ placed, outcome ≠ .item placed) : Gives cursor [] outcome last
  | item {cursor rest last : Cursor} {placed : Placed} {items : List Placed} {outcome : Outcome}
      (hNext : cursor.next = (.item placed, rest)) (hRest : Gives rest items outcome last) :
      Gives cursor (placed :: items) outcome last

namespace Cursor

/-- The calls of a cursor come to an end. -/
theorem exists_gives (cursor : Cursor) :
    ∃ items outcome last, cursor.Gives items outcome last := by
  match h : cursor.next with
  | (.done, last) => exact ⟨[], .done, last, .stops h (by simp)⟩
  | (.failed fault, last) => exact ⟨[], .failed fault, last, .stops h (by simp)⟩
  | (.item placed, rest) =>
      have hSmaller := next_item_smaller h
      obtain ⟨items, outcome, last, hRest⟩ := exists_gives rest
      exact ⟨placed :: items, outcome, last, .item h hRest⟩
termination_by (cursor.unread, cursor.state.ready.length)
decreasing_by exact hSmaller

namespace Gives

variable {cursor last : Cursor} {items : List Placed} {outcome : Outcome}

theorem exhausted (h : cursor.Gives items outcome last) : last.Exhausted := by
  induction h with
  | stops hNext hStops => exact (nextFrom_stops hNext hStops).1
  | item _ _ ih => exact ih

/-- The outcome behind the items is no item. -/
theorem ne_item (h : cursor.Gives items outcome last) : ∀ placed, outcome ≠ .item placed := by
  induction h with
  | stops _ hStops => exact hStops
  | item _ _ ih => exact ih

/-- After a fault nothing is left of what was buffered. -/
theorem buffer_eq_nil {fault : Fault} (h : cursor.Gives items (.failed fault) last) :
    last.state.buffer = [] := by
  generalize hOutcome : Outcome.failed fault = outcome at h
  induction h with
  | stops hNext hStops => exact (nextFrom_stops hNext hStops).2 fault hOutcome.symm
  | item _ _ ih => exact ih hOutcome

/-- The first calls hand out the items. -/
theorem call_item (h : cursor.Gives items outcome last) {n : Nat} {placed : Placed}
    (hItem : items[n]? = some placed) : cursor.call n = .item placed := by
  induction h generalizing n with
  | stops _ _ => simp at hItem
  | item hNext _ ih =>
      cases n with
      | zero =>
          rw [List.getElem?_cons_zero] at hItem
          cases hItem
          rw [call_zero, hNext]
      | succ n =>
          rw [List.getElem?_cons_succ] at hItem
          rw [call_succ, hNext]
          exact ih hItem

/-- The call behind the items gives the outcome that is no item. -/
theorem call_length (h : cursor.Gives items outcome last) :
    cursor.call items.length = outcome := by
  induction h with
  | stops hNext _ => rw [List.length_nil, call_zero, hNext]
  | item hNext _ ih =>
      rw [List.length_cons, call_succ, hNext]
      exact ih

/-- After the call behind the items, the cursor stays as it is. -/
theorem after_eq (h : cursor.Gives items outcome last) {n : Nat} (hn : items.length < n) :
    cursor.after n = last := by
  induction h generalizing n with
  | stops hNext hStops =>
      obtain ⟨n, rfl⟩ : ∃ m, n = m + 1 := ⟨n - 1, by omega⟩
      show (after n (next _).2) = _
      rw [hNext]
      exact (nextFrom_stops hNext hStops).1.after_eq n
  | item hNext _ ih =>
      obtain ⟨n, rfl⟩ : ∃ m, n = m + 1 := ⟨n - 1, by omega⟩
      show (after n (next _).2) = _
      rw [hNext]
      refine ih ?_
      simp only [List.length_cons] at hn
      omega

/-- After the call behind the items, every call says that the scan is done. -/
theorem call_done (h : cursor.Gives items outcome last) {n : Nat} (hn : items.length < n) :
    cursor.call n = .done := by
  rw [call, h.after_eq hn]
  exact h.exhausted.call_eq 0

end Gives

end Cursor

/-! ## How far a call reads -/

/-- How often a call tries to read on, to a directive line or to the end of the source. -/
def triesFrom (setup : Setup) (state : State) : List DirectiveLine → Nat
  | [] => if state.ready = [] ∧ state.finished = false then 1 else 0
  | line :: upcoming =>
      if state.ready = [] ∧ state.finished = false then
        match state.read setup line with
        | .error _ => 1
        | .ok next => triesFrom setup next upcoming + 1
      else 0

namespace Cursor

/-- How often the next call tries to read on. -/
def tries (cursor : Cursor) : Nat := triesFrom cursor.setup cursor.state cursor.upcoming

/-- How often some calls try to read on. -/
def triesBy : Nat → Cursor → Nat
  | 0, _ => 0
  | n + 1, cursor => cursor.tries + triesBy n cursor.next.2

end Cursor

/-- A call that does not have to read gives what waits, or says that the scan is done. -/
theorem nextFrom_of_idle {setup : Setup} {state : State}
    (h : ¬ (state.ready = [] ∧ state.finished = false)) (upcoming : List DirectiveLine) :
    nextFrom setup state upcoming =
      match state.ready with
      | placed :: ready => (.item placed, ⟨setup, { state with ready }, upcoming⟩)
      | [] => (.done, ⟨setup, state, upcoming⟩) := by
  cases hReady : state.ready with
  | cons placed ready => exact Cursor.next_ready hReady
  | nil =>
      have hFinished : state.finished = true := by
        rw [← Bool.not_eq_false]
        exact fun hUnfinished => h ⟨hReady, hUnfinished⟩
      have hDone : (Cursor.mk setup state upcoming).next = (.done, ⟨setup, state, upcoming⟩) :=
        next_of_finished hFinished hReady
      exact hDone

/-- Every try takes one directive line, as long as there are any. -/
theorem upcoming_nextFrom (setup : Setup) (state : State) (upcoming : List DirectiveLine) :
    (nextFrom setup state upcoming).2.upcoming =
      upcoming.drop (triesFrom setup state upcoming) := by
  induction upcoming generalizing state with
  | nil => simp [nextFrom]
  | cons line upcoming ih =>
      by_cases hIdle : state.ready = [] ∧ state.finished = false
      · obtain ⟨hReady, hFinished⟩ := hIdle
        simp only [nextFrom, triesFrom, hReady, hFinished, and_self, if_true, Bool.false_eq_true,
          if_false]
        cases state.read setup line with
        | error fault => rfl
        | ok next => exact ih next
      · rw [nextFrom_of_idle hIdle, triesFrom, if_neg hIdle]
        split
        · rfl
        · rfl

theorem Cursor.upcoming_next (cursor : Cursor) :
    cursor.next.2.upcoming = cursor.upcoming.drop cursor.tries :=
  upcoming_nextFrom cursor.setup cursor.state cursor.upcoming

end ValueNames.Scan
