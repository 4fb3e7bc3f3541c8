import ValueNames.Proofs.Scan.Behind
import ValueNames.Proofs.Scan.Online

/-!
# Sources put one behind the other

Behind the last line of an outermost block a scan starts afresh: no branch is open,
nothing is buffered, and the pending text begins at the line feed that ends the line. So
the scan of a source that ends there can be continued with any other source.

This does not hold behind a block that is embedded in top-level text. Its items wait for
the text around it, and the other source becomes part of this text.

## Main results

* `Scan.outputs_concatenation` — what is handed out for two sources, one behind the other.
* `collect_concatenation` — the calls of a scan of two sources.
-/

namespace ValueNames

open Conditional

namespace Scan

/-- What a call gives for a source that stands further behind. -/
def Outcome.shift (base newlines : Nat) : Outcome → Outcome
  | .item placed => .item (placed.shift base)
  | .failed fault => .failed (fault.shift base newlines)
  | .done => .done

theorem Outcome.ofFault?_map (base newlines : Nat) (fault : Option Fault) :
    ofFault? (fault.map (Fault.shift base newlines)) = (ofFault? fault).shift base newlines := by
  cases fault with
  | none => rfl
  | some fault => rfl

/-- The calls behind some items give what another cursor gives, further behind. -/
theorem Cursor.Gives.call_behind {own both last last' : Cursor} {items found : List Placed}
    {fault : Option Fault} {base newlines : Nat} (hOwn : own.Gives found (.ofFault? fault) last)
    (hBoth : both.Gives (items ++ found.map (Placed.shift base))
      (.ofFault? (fault.map (Fault.shift base newlines))) last') (n : Nat) :
    both.call (items.length + n) = (own.call n).shift base newlines := by
  rw [hBoth.call_eq, hOwn.call_eq, List.getElem?_append_right (Nat.le_add_right _ _),
    Nat.add_sub_cancel_left, List.getElem?_map]
  cases found[n]? with
  | some placed => rfl
  | none =>
      by_cases hLast : n = found.length
      · simp only [Option.map_none, hLast, List.length_append, List.length_map, if_true,
          Outcome.ofFault?_map]
      · simp only [Option.map_none, hLast, List.length_append, List.length_map,
          Nat.add_left_cancel_iff, if_false]
        rfl

/-- Reading some lines does not depend on what stands behind them. -/
theorem State.readAll_withSource {setup : Setup} {front back : Text}
    (hSource : setup.source = front ++ back) (other : Text)
    (hLocal : ∀ finder ∈ setup.finders, finder.Local) {lines : List DirectiveLine} {state : State}
    {bound : Nat} (hFits : state.outline.Fits setup.source bound)
    (hLines : Spaced setup.source bound lines)
    (hStops : ∀ line ∈ lines, line.span.stop ≤ Text.size front) :
    state.readAll (setup.withSource (front ++ other)) lines = state.readAll setup lines := by
  induction lines generalizing state bound with
  | nil => rfl
  | cons line rest ih =>
      obtain ⟨hBound, hStands, hRest⟩ := hLines
      rw [readAll, readAll, read_withSource hSource other hLocal hFits hStands hBound
        (hStops line (by simp))]
      cases hRead : state.read setup line with
      | error fault => rfl
      | ok next =>
          exact ih (fits_of_read hFits hStands hBound hRead) hRest
            fun other hOther => hStops other (by simp [hOther])

/-! ## The end of an outermost block -/

/--
The source is a text and a line feed. In front of the line feed ends the last directive
line, an `#endif` line that closes an outermost block, and this block is not embedded.
-/
def Setup.EndsBlock (setup : Setup) (body : Text) : Prop :=
  setup.source = body ++ ['\n'] ∧ ∃ lines line state,
    directiveLines setup.source = lines ++ [line] ∧ line.directive = .closes .final ∧
      line.span.stop = Text.size body ∧ State.initial.readAll setup lines = .ok state ∧
      state.blocks.length = 1 ∧ state.embedded = false

/-- So it is if the last line of the source is such a line, without a backslash at its end. -/
theorem Setup.endsBlock_of_lastLine {setup : Setup} {ahead own : Text}
    (hSource : setup.source = ahead ++ own ++ ['\n']) (hOwn : '\n' ∉ own)
    (hPlain : ¬ Continues own) {lines : List DirectiveLine} {line : DirectiveLine}
    (hLines : directiveLines setup.source = lines ++ [line])
    (hStart : line.span.start = Text.size ahead) (hCloses : line.directive = .closes .final)
    {state : State} (hState : State.initial.readAll setup lines = .ok state)
    (hOne : state.blocks.length = 1) (hFree : state.embedded = false) :
    setup.EndsBlock (ahead ++ own) := by
  have hLine : line ∈ directiveLines (ahead ++ own ++ ['\n']) := by
    rw [← hSource, hLines]
    simp
  exact ⟨hSource, lines, line, state, hLines, hCloses,
    stop_of_lastLine hLine hStart hOwn hPlain, hState, hOne, hFree⟩

/-- The last line of an outermost block that is not embedded leaves nothing open or buffered. -/
theorem State.emptied_of_read {setup : Setup} {body : Text} {line : DirectiveLine}
    {state next : State} (hCloses : line.directive = .closes .final)
    (hStop : line.span.stop = Text.size body) (hOne : state.blocks.length = 1)
    (hFree : state.embedded = false) (hFinished : state.finished = false)
    (hRead : state.read setup line = .ok next) : next.emptied = State.initial.behind body := by
  obtain ⟨block, hBlocks⟩ := List.length_eq_one_iff.mp hOne
  rw [read, hCloses] at hRead
  simp only [closes_cons hBlocks] at hRead
  obtain ⟨items, _, rfl⟩ := map_eq_ok_iff.mp hRead
  simp [leave, hFree, flush, emptied, behind, State.initial, pendingBehind, hStop, hFinished]

/-- In an empty source nothing is found. -/
theorem outputs_empty (setup : Setup) :
    State.initial.outputs (setup.withSource []) (directiveLines []) = ([], none) := by
  have hNone : directiveLines [] = [] := by rw [directiveLines, linesFrom]
  have hOrdered : Placed.ordered [] = [] := by simp [Placed.ordered, Placed.sorted, Placed.keepFirst]
  have hFinish : State.initial.finish (setup.withSource []) =
      .ok ⟨[], 0, false, [], Placed.ordered [], true⟩ := rfl
  rw [hNone, State.outputs, hFinish, hOrdered]

/-- All items of a scan are its outputs. -/
theorem outputs_of_collect {setup : Setup} {items : List Placed}
    (h : (Cursor.start setup).collect = .ok items) :
    State.initial.outputs setup (directiveLines setup.source) = (items, none) := by
  rw [collect_eq_outputs] at h
  obtain ⟨hFault, hFound⟩ := checked_eq_ok_iff.mp h
  exact Prod.ext hFound hFault

/-- Where the scan of the first source ends, that of the second source begins. -/
theorem Setup.EndsBlock.exists_last {setup : Setup} {body : Text} (h : setup.EndsBlock body)
    {items : List Placed} (hItems : (Cursor.start setup).collect = .ok items) :
    ∃ lines line last, directiveLines setup.source = lines ++ [line] ∧
      line.span.stop = Text.size body ∧
      State.initial.readAll setup (lines ++ [line]) = .ok last ∧
      last.emptied = State.initial.behind body := by
  obtain ⟨_, lines, line, state, hLines, hCloses, hStop, hState, hBranch, hFree⟩ := h
  rw [collect_eq_run, hLines, State.run_eq_readAll] at hItems
  obtain ⟨final, hFinal, _⟩ := map_eq_ok_iff.mp hItems
  obtain ⟨last, hLast, _⟩ := bind_eq_ok_iff.mp hFinal
  have hBoth := hLast
  rw [State.readAll_append, hState] at hBoth
  have hOne : state.readAll setup [line] = .ok last := hBoth
  obtain ⟨next, hRead, hSame⟩ := bind_eq_ok_iff.mp hOne
  cases hSame
  exact ⟨lines, line, last, hLines, hStop, hLast,
    State.emptied_of_read hCloses hStop hBranch hFree (State.readAll_finished hState) hRead⟩

/--
What is handed out for two sources, one behind the other, if the first one ends with an
outermost block: the items of the first one and then what the second one holds.
-/
theorem outputs_concatenation {setup : Setup} {body : Text} (hEnds : setup.EndsBlock body)
    (hLocal : ∀ finder ∈ setup.finders, finder.Local)
    (hMovable : ∀ finder ∈ setup.finders, finder.Movable) {items : List Placed}
    (hItems : (Cursor.start setup).collect = .ok items) (back : Text) :
    State.initial.outputs (setup.withSource (body ++ '\n' :: back))
      (directiveLines (body ++ '\n' :: back)) =
        (items ++ (State.initial.outputs (setup.withSource back) (directiveLines back)).1.map
            (Placed.shift (Text.size body + 1)),
          (State.initial.outputs (setup.withSource back) (directiveLines back)).2.map
            (Fault.shift (Text.size body + 1) (body.count '\n' + 1))) := by
  obtain ⟨lines, line, last, hLines, hStop, hLast, hEmptied⟩ := hEnds.exists_last hItems
  have hSource : setup.source = body ++ '\n' :: [] := hEnds.1
  have hCut : directiveLines (body ++ '\n' :: []) = lines ++ line :: [] := by
    rw [← hSource]
    exact hLines
  have hSpaced : Spaced setup.source 0 (lines ++ [line]) := by
    rw [← hLines]
    exact spaced_directiveLines setup.source
  have hReady : last.emptied.prepend last.ready = last := last.prepend_emptied
  -- Whatever follows, the first source is read as it is, and the second one afresh.
  have hBoth : ∀ back, State.initial.outputs (setup.withSource (body ++ '\n' :: back))
      (directiveLines (body ++ '\n' :: back)) =
        (last.ready ++ (State.initial.outputs (setup.withSource back) (directiveLines back)).1.map
            (Placed.shift (Text.size body + 1)),
          (State.initial.outputs (setup.withSource back) (directiveLines back)).2.map
            (Fault.shift (Text.size body + 1) (body.count '\n' + 1))) := by
    intro back
    have hRead : State.initial.readAll (setup.withSource (body ++ '\n' :: back))
        (lines ++ [line]) = .ok last :=
      (State.readAll_withSource hSource ('\n' :: back) hLocal Outline.fits_initial hSpaced
        (stop_le_of_stop hCut hStop)).trans hLast
    have hSame : ∀ finder ∈ (setup.withSource back).finders, finder.Movable := hMovable
    have hBehind : (State.initial.behind body).outputs (setup.withSource (body ++ '\n' :: back))
        ((directiveLines back).map (DirectiveLine.shift (Text.size body + 1))) = _ :=
      State.outputs_behind body hSame Outline.fits_initial (Nat.zero_le _)
        (spaced_directiveLines back)
    have hLater : (last.emptied.prepend last.ready).outputs
        (setup.withSource (body ++ '\n' :: back))
        ((directiveLines back).map (DirectiveLine.shift (Text.size body + 1))) = _ :=
      State.outputs_prepend _ _ _
    rw [hReady, hEmptied, hBehind] at hLater
    rw [directiveLines_shared hCut hStop, State.outputs_append hRead, hLater]
  have hFirst := hBoth []
  have hSame : setup.withSource (body ++ '\n' :: []) = setup := by
    rw [← hSource]
    rfl
  rw [outputs_empty, hSame, ← hSource, outputs_of_collect hItems] at hFirst
  have hWaiting : items = last.ready := by simpa using congrArg Prod.fst hFirst
  rw [hWaiting]
  exact hBoth back

/-- The calls of a scan of two sources, one behind the other. -/
theorem calls_concatenation {setup : Setup} {body : Text} (hEnds : setup.EndsBlock body)
    (hLocal : ∀ finder ∈ setup.finders, finder.Local)
    (hMovable : ∀ finder ∈ setup.finders, finder.Movable) {items : List Placed}
    (hItems : (Cursor.start setup).collect = .ok items) (second : Text) :
    let own := Cursor.start (setup.withSource second)
    let both := Cursor.start (setup.withSource (setup.source ++ second))
    let base := Text.size setup.source
    let newlines := setup.source.count '\n'
    (∀ n placed, items[n]? = some placed → both.call n = .item placed) ∧
      (∀ n, both.call (items.length + n) = (own.call n).shift base newlines) ∧
      both.collect = shiftResult base newlines
        (fun found => items ++ found.map (Placed.shift base)) own.collect := by
  intro own both base newlines
  have hBase : base = Text.size body + 1 := by
    show Text.size setup.source = _
    rw [hEnds.1, Text.size_append]
    rfl
  have hNewlines : newlines = body.count '\n' + 1 := by
    show setup.source.count '\n' = _
    simp [hEnds.1]
  have hText : setup.source ++ second = body ++ '\n' :: second := by simp [hEnds.1]
  have hOutputs := outputs_concatenation hEnds hLocal hMovable hItems second
  rw [← hText, ← hBase, ← hNewlines] at hOutputs
  obtain ⟨lastOwn, hOwn⟩ : Cursor.GivesOutputs (setup.withSource second) .initial
    (directiveLines second) := Cursor.givesOutputs rfl
  obtain ⟨lastBoth, hBoth⟩ : Cursor.GivesOutputs (setup.withSource (setup.source ++ second))
    .initial (directiveLines (setup.source ++ second)) := Cursor.givesOutputs rfl
  rw [hOutputs] at hBoth
  generalize State.initial.outputs (setup.withSource second) (directiveLines second) = outputs
    at hOwn hBoth
  obtain ⟨found, fault⟩ := outputs
  have hOwn : own.Gives found (.ofFault? fault) lastOwn := hOwn
  have hBoth : both.Gives (items ++ found.map (Placed.shift base))
    (.ofFault? (fault.map (Fault.shift base newlines))) lastBoth := hBoth
  refine ⟨?_, hOwn.call_behind hBoth, ?_⟩
  · intro n placed hItem
    have hLess : n < items.length := (List.getElem?_eq_some_iff.mp hItem).1
    apply hBoth.call_item
    rw [List.getElem?_append_left hLess, hItem]
  · rw [hBoth.collect_eq, hOwn.collect_eq]
    cases fault with
    | none => rfl
    | some fault => rfl

end Scan

open Scan

/--
The scan of two sources, one behind the other, if the first one ends with an outermost
block that is not embedded and its scan succeeds. The first calls hand out the items of
the first source. The later calls give what the calls of a scan of the second source
give, with every offset and span moved behind the first source, and with the line of a
fault counted on from its line feeds.
-/
theorem collect_concatenation {settings : Settings} {finders : List Finder}
    (hFinders : settings.finders = .ok finders) {unguardedOutermost : Bool} {first body : Text}
    (hEnds : (Setup.mk first finders unguardedOutermost).EndsBlock body) {items : List Placed}
    (hItems : (Cursor.start ⟨first, finders, unguardedOutermost⟩).collect = .ok items)
    (second : Text) :
    let own := Cursor.start ⟨second, finders, unguardedOutermost⟩
    let both := Cursor.start ⟨first ++ second, finders, unguardedOutermost⟩
    (∀ n placed, items[n]? = some placed → both.call n = .item placed) ∧
      (∀ n, both.call (items.length + n) =
        (own.call n).shift (Text.size first) (first.count '\n')) ∧
      both.collect = shiftResult (Text.size first) (first.count '\n')
        (fun found => items ++ found.map (Placed.shift (Text.size first))) own.collect :=
  calls_concatenation hEnds (local_of_mem_finders hFinders) (movable_of_mem_finders hFinders)
    hItems second

/-- A source that ends with an outermost block. -/
def closedBlock : Text := "#ifdef A\nenum x \x7b a \x7d;\n#endif\n".toList

/-- A source with a block and a closing line too many. -/
def strayBehind : Text := "#ifdef B\nenum y \x7b b \x7d;\n#endif\n#else\n".toList

/-- Behind the first source the second one is scanned as it is on its own, up to its fault. -/
theorem collect_closedBlock_strayBehind :
    ∃ finders items, ({} : Settings).finders = .ok finders ∧
      (Setup.mk closedBlock finders false).EndsBlock
        ("#ifdef A\nenum x \x7b a \x7d;\n".toList ++ "#endif".toList) ∧
      (Cursor.start ⟨closedBlock, finders, false⟩).collect = .ok items ∧
      (∀ n, (Cursor.start ⟨closedBlock ++ strayBehind, finders, false⟩).call (items.length + n) =
        ((Cursor.start ⟨strayBehind, finders, false⟩).call n).shift 30 3) ∧
      (Cursor.start ⟨strayBehind, finders, false⟩).collect = .error (.strayCloser 4 .alternative) ∧
      (Cursor.start ⟨closedBlock ++ strayBehind, finders, false⟩).collect =
        .error (.strayCloser 7 .alternative) := by
  obtain ⟨finders, hFinders⟩ : ∃ finders, ({} : Settings).finders = .ok finders := ⟨_, rfl⟩
  have hParts : (State.initial.readAll ⟨closedBlock, finders, false⟩
      [⟨.opens .defined, "A".toList, ⟨0, 8⟩⟩]).toOption.map
        (fun state => (state.blocks.length, state.embedded)) = some (1, false) ∧
      ((State.initial.run ⟨closedBlock, finders, false⟩ (directiveLines closedBlock)).map
        State.ready).toOption.isSome = true ∧
      (State.initial.outputs ⟨strayBehind, finders, false⟩ (directiveLines strayBehind)).2 =
        some (.strayCloser 4 .alternative) := by
    cases hFinders
    decide +kernel
  obtain ⟨hBranch, hSome, hFault⟩ := hParts
  obtain ⟨items, hRun⟩ := Option.isSome_iff_exists.mp hSome
  have hItems : (Cursor.start ⟨closedBlock, finders, false⟩).collect = .ok items :=
    collect_of_run hRun
  have hEnds : (Setup.mk closedBlock finders false).EndsBlock
      ("#ifdef A\nenum x \x7b a \x7d;\n".toList ++ "#endif".toList) := by
    have hSource : closedBlock =
        "#ifdef A\nenum x \x7b a \x7d;\n".toList ++ "#endif".toList ++ ['\n'] := by decide +kernel
    have hLines : directiveLines closedBlock = [⟨.opens .defined, "A".toList, ⟨0, 8⟩⟩] ++
        [⟨.closes .final, [], ⟨23, 29⟩⟩] := by decide +kernel
    cases hState : State.initial.readAll ⟨closedBlock, finders, false⟩
        [⟨.opens .defined, "A".toList, ⟨0, 8⟩⟩] with
    | error fault =>
        rw [hState] at hBranch
        cases hBranch
    | ok state =>
        rw [hState] at hBranch
        obtain ⟨hOne, hFree⟩ := Prod.mk.inj (Option.some.inj hBranch)
        exact Setup.endsBlock_of_lastLine hSource (by decide) (by decide) hLines
          (by decide +kernel) rfl hState hOne hFree
  have hStray : (Cursor.start ⟨strayBehind, finders, false⟩).collect =
      .error (.strayCloser 4 .alternative) := by
    rw [collect_eq_outputs]
    show checked (State.initial.outputs _ (directiveLines strayBehind)).2 _ = _
    rw [hFault]
    rfl
  have hSize : Text.size closedBlock = 30 := by decide +kernel
  have hCount : closedBlock.count '\n' = 3 := by decide +kernel
  obtain ⟨_, hCalls, hCollect⟩ := collect_concatenation hFinders hEnds hItems strayBehind
  rw [hSize, hCount] at hCalls hCollect
  rw [hStray] at hCollect
  exact ⟨finders, items, hFinders, hEnds, hItems, hCalls, hStray, hCollect⟩

end ValueNames
