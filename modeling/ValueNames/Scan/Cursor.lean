import ValueNames.Scan.State

/-!
# Scanning step by step

A cursor hands out the items of a scan one at a time. It reads a directive
line only when no item is ready, so that it never looks further ahead than it
has to. After the first error, and after the end, it stays at the end.

## Main results

* `next_item_smaller` — handing out an item brings the end nearer, so that
  asking again and again comes to an end.
* `next_of_finished` — a finished cursor with nothing ready is at the end for good.
-/

namespace ValueNames.Scan

/-- A scan with the directive lines it has not read yet. -/
structure Cursor where
  setup : Setup
  state : State
  upcoming : List DirectiveLine

/-- What asking for the next item can give. -/
inductive Outcome
  | item (placed : Placed)
  | failed (fault : Fault)
  | done
deriving DecidableEq, Repr

/-- A cursor before the first line of the source. -/
def Cursor.start (setup : Setup) : Cursor :=
  ⟨setup, .initial, Conditional.directiveLines setup.source⟩

/-- Hands out a ready item, or goes on with `otherwise`. -/
def State.handOut (state : State) (otherwise : Outcome × State) : Outcome × State :=
  match state.ready with
  | placed :: ready => (.item placed, { state with ready })
  | [] => otherwise

/-- Reads the end of the source, if that is not done yet, and hands out an item if there is one. -/
def State.nextAtEnd (setup : Setup) (state : State) : Outcome × State :=
  state.handOut
    (if state.finished then (.done, state)
    else
      match state.finish setup with
      | .error fault => (.failed fault, state.halt)
      | .ok state => state.handOut (.done, state))

/-- The next outcome of a scan in a given state, and the scan after it. -/
def nextFrom (setup : Setup) (state : State) : List DirectiveLine → Outcome × Cursor
  | [] =>
      let (outcome, state) := state.nextAtEnd setup
      (outcome, ⟨setup, state, []⟩)
  | line :: upcoming =>
      match state.ready with
      | placed :: ready => (.item placed, ⟨setup, { state with ready }, line :: upcoming⟩)
      | [] =>
          if state.finished then (.done, ⟨setup, state, line :: upcoming⟩)
          else
            match state.read setup line with
            | .error fault => (.failed fault, ⟨setup, state.haltAt line, upcoming⟩)
            | .ok state => nextFrom setup state upcoming

namespace Cursor

/-- The next outcome and the cursor after it. -/
def next (cursor : Cursor) : Outcome × Cursor :=
  nextFrom cursor.setup cursor.state cursor.upcoming

/-- The number of open branches. -/
def depth (cursor : Cursor) : Nat := cursor.state.blocks.length

/-- The directive lines, and the end, that are still to be read. -/
def unread (cursor : Cursor) : Nat :=
  cursor.upcoming.length + if cursor.state.finished then 0 else 1

end Cursor

/-! ## Progress -/

theorem finish_finished {setup : Setup} {state after : State}
    (h : state.finish setup = .ok after) : after.finished = true := by
  unfold State.finish at h
  split at h
  · cases h
  · obtain ⟨entities, _, rfl⟩ := map_eq_ok_iff.mp h
    rfl

theorem nextFrom_item_smaller {setup : Setup} {state : State} {upcoming : List DirectiveLine}
    {placed : Placed} {after : Cursor}
    (h : nextFrom setup state upcoming = (.item placed, after)) :
    Prod.Lex (· < ·) (· < ·) (after.unread, after.state.ready.length)
      ((Cursor.mk setup state upcoming).unread, state.ready.length) := by
  induction upcoming generalizing state with
  | nil =>
      unfold nextFrom State.nextAtEnd State.handOut at h
      cases hReady : state.ready with
      | cons first ready =>
          rw [hReady] at h
          cases h
          exact .right _ (by simp)
      | nil =>
          rw [hReady] at h
          cases hFinished : state.finished with
          | true =>
              rw [hFinished] at h
              cases h
          | false =>
              rw [hFinished] at h
              cases hDone : state.finish setup with
              | error fault =>
                  rw [hDone] at h
                  cases h
              | ok done =>
                  rw [hDone] at h
                  have hTrue := finish_finished hDone
                  cases hNext : done.ready with
                  | nil =>
                      simp only [hNext] at h
                      cases h
                  | cons first ready =>
                      simp only [hNext] at h
                      cases h
                      refine .left _ _ ?_
                      simp [Cursor.unread, hTrue, hFinished]
  | cons line upcoming ih =>
      unfold nextFrom at h
      cases hReady : state.ready with
      | cons first ready =>
          rw [hReady] at h
          cases h
          exact .right _ (by simp)
      | nil =>
          rw [hReady] at h
          cases hFinished : state.finished with
          | true =>
              rw [hFinished] at h
              cases h
          | false =>
              rw [hFinished] at h
              cases hRead : state.read setup line with
              | error fault =>
                  rw [hRead] at h
                  cases h
              | ok read =>
                  simp only [hRead] at h
                  have hSmaller := ih h
                  have hUnread : (Cursor.mk setup read upcoming).unread <
                      (Cursor.mk setup state (line :: upcoming)).unread := by
                    simp only [Cursor.unread, List.length_cons, hFinished, Bool.false_eq_true,
                      if_false]
                    split <;> omega
                  rcases Prod.lex_def.mp hSmaller with hLess | ⟨hEqual, _⟩
                  · exact .left _ _ (Nat.lt_trans hLess hUnread)
                  · exact .left _ _ (by simp only at hEqual; omega)

theorem next_item_smaller {cursor after : Cursor} {placed : Placed}
    (h : cursor.next = (.item placed, after)) :
    Prod.Lex (· < ·) (· < ·) (after.unread, after.state.ready.length)
      (cursor.unread, cursor.state.ready.length) :=
  nextFrom_item_smaller h

theorem next_of_finished {cursor : Cursor} (hFinished : cursor.state.finished = true)
    (hReady : cursor.state.ready = []) : cursor.next = (.done, cursor) := by
  obtain ⟨setup, state, upcoming⟩ := cursor
  simp only at hFinished hReady
  cases upcoming with
  | nil => simp [Cursor.next, nextFrom, State.nextAtEnd, State.handOut, hFinished, hReady]
  | cons line upcoming => simp [Cursor.next, nextFrom, hFinished, hReady]

/-! ## All items -/

/-- All items that are still to be handed out, or the fault that comes instead of the end. -/
def Cursor.collect (cursor : Cursor) : Except Fault (List Placed) :=
  match h : cursor.next with
  | (.done, _) => .ok []
  | (.failed fault, _) => .error fault
  | (.item placed, rest) =>
      have := next_item_smaller h
      rest.collect.map (placed :: ·)
termination_by (cursor.unread, cursor.state.ready.length)
decreasing_by exact this

end ValueNames.Scan
