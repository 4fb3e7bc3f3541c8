import ValueNames.Proofs.Conditional.Seam
import ValueNames.Proofs.Finder.Local
import ValueNames.Proofs.Scan.Calls

/-!
# A scan does not look ahead

A scan reads its source line by line, and what it has handed out so far depends only on
the lines it has read. Two sources that begin with the same text can be told apart only
by a call that tries to read a directive line, or the end, behind that text.

A finder takes part in this if it looks at nothing but the text of its region and the
place of the region in the source.

## Main results

* `State.read_withSource` — reading a line does not depend on what stands behind it.
* `nextFrom_withSource`, `calls_withSource` — neither does a call, nor do some calls,
  that read no further.
* `calls_online_fused` — the calls of a scan are the same on two sources as long as they
  read what the sources share; on every source they come to an end and stay there.
-/

namespace ValueNames

open Conditional

namespace Scan

/-- The same scan of another source. -/
def Setup.withSource (setup : Setup) (source : Text) : Setup := { setup with source }

/-! ## Regions in the shared text -/

section Shared

variable {source front back : Text} (hSource : source = front ++ back) (other : Text)

include hSource

theorem slice?_shared (start : Nat) {stop : Nat} (h : stop ≤ Text.size front) :
    Text.slice? (front ++ other) start stop = Text.slice? source start stop := by
  rw [hSource, Text.slice?_append_left front other start h, Text.slice?_append_left front back start h]

theorem braceOpen_shared (start : Nat) {stop : Nat} (h : stop ≤ Text.size front) :
    braceOpen (front ++ other) start stop = braceOpen source start stop := by
  rw [braceOpen, braceOpen, slice?_shared hSource other start h]

theorem line_shared {span : Span} (h : span.start ≤ Text.size front) :
    span.line (front ++ other) = span.line source := by
  rw [Span.line, Span.line, hSource, Text.lineOf_append_left front other h,
    Text.lineOf_append_left front back h]

end Shared

/-! ## One line -/

/-- The part looked at when a line is read ends where the line begins. -/
theorem Outline.part?_region_stop {source : Text} {line : DirectiveLine} {outline : Outline}
    {part : Part} (h : outline.part? source line = some part) :
    part.region.stop = line.span.start := by
  unfold Outline.part? at h
  split at h
  · split at h
    · cases h
    · cases h
      rfl
  · cases h
  · cases h
  · cases h
    rfl

section Line

variable {setup : Setup} {front back : Text} (hSource : setup.source = front ++ back)
  (other : Text)

include hSource

/-- What is seen in a region of the shared text does not depend on what stands behind it. -/
theorem Setup.look_withSource (hLocal : ∀ finder ∈ setup.finders, finder.Local) {region : Span}
    {text : Text} (hText : regionText setup.source region = .ok text)
    (hStop : region.stop ≤ Text.size front) :
    (setup.withSource (front ++ other)).look region = setup.look region := by
  have hOther : regionText (front ++ other) region = .ok text := by
    rw [regionText_eq_ok_iff, slice?_shared hSource other region.start hStop,
      ← regionText_eq_ok_iff]
    exact hText
  show (setup.finders.mapM (placedBy (front ++ other) region)).map List.flatten =
    (setup.finders.mapM (placedBy setup.source region)).map List.flatten
  congr 1
  generalize setup.finders = finders at hLocal
  induction finders with
  | nil => rfl
  | cons finder rest ih =>
      have hFind := hLocal finder (by simp) (front ++ other) setup.source region text hOther hText
      rw [List.mapM_cons, List.mapM_cons, ih fun finder hFinder => hLocal finder (by simp [hFinder]),
        placedBy, placedBy, hFind]

theorem Setup.items_withSource (hLocal : ∀ finder ∈ setup.finders, finder.Local) {part : Part}
    (hFits : part.Fits setup.source) (hStop : part.region.stop ≤ Text.size front) :
    (setup.withSource (front ++ other)).items part = setup.items part := by
  obtain ⟨text, hText⟩ := hFits.exists_text
  have hLook := look_withSource hSource other hLocal hText hStop
  cases part with
  | topLevel region =>
      have hLook : (setup.withSource (front ++ other)).look region = setup.look region := hLook
      rw [items, items, hLook]
  | branch scope outermost =>
      have hLook : (setup.withSource (front ++ other)).look scope.region =
        setup.look scope.region := hLook
      rw [items, items, hLook]
      rfl

/-- Reading a line does not depend on what stands behind it. -/
theorem State.read_withSource (hLocal : ∀ finder ∈ setup.finders, finder.Local) {state : State}
    {line : DirectiveLine} {bound : Nat} (hFits : state.outline.Fits setup.source bound)
    (hStands : line.StandsIn setup.source) (hBound : bound ≤ line.span.start)
    (hStop : line.span.stop ≤ Text.size front) :
    state.read (setup.withSource (front ++ other)) line = state.read setup line := by
  have hOwn := hStands.start_lt_stop
  have hStart : line.span.start ≤ Text.size front := by omega
  obtain ⟨text, hText⟩ := Text.exists_slice? (Text.isBoundary_of_start hFits.pending.2)
    hStands.isBoundary_start (Nat.le_trans hFits.pending.1 hBound)
  have hOther : Text.slice? (setup.withSource (front ++ other)).source state.pendingFrom
      line.span.start = some text :=
    (slice?_shared hSource other _ hStart).trans hText
  have hBrace : braceOpen (front ++ other) state.outline.pendingFrom line.span.start =
      braceOpen setup.source state.outline.pendingFrom line.span.start :=
    braceOpen_shared hSource other _ hStart
  have hLine : line.span.line (front ++ other) = line.span.line setup.source :=
    line_shared hSource other hStart
  have hRead : state.outline.read (front ++ other) line =
      state.outline.read setup.source line := by
    simp only [Outline.read, hBrace, hLine]
  have hFlushes : state.outline.flushes (front ++ other) line =
      state.outline.flushes setup.source line := by
    simp only [Outline.flushes, hBrace]
  have hPart : state.outline.part? (front ++ other) line =
      state.outline.part? setup.source line := by
    simp only [Outline.part?, hBrace]
  have hFound : state.found (setup.withSource (front ++ other)) line =
      state.found setup line := by
    have hPart : state.outline.part? (setup.withSource (front ++ other)).source line = _ := hPart
    rw [State.found, State.found, hPart]
    cases hSome : state.outline.part? setup.source line with
    | none => rfl
    | some part =>
        obtain ⟨hPartFits, _⟩ := hFits.part hStands hBound hSome
        have hEnd : part.region.stop ≤ Text.size front := by
          rw [Outline.part?_region_stop hSome]
          exact hStart
        exact Setup.items_withSource hSource other hLocal hPartFits hEnd
  rw [State.read_eq hText, State.read_eq hOther, hFound]
  show (state.outline.read (front ++ other) line).bind (fun next =>
      (state.found setup line).map fun items =>
        state.advance next (state.outline.flushes (front ++ other) line) items) = _
  rw [hRead, hFlushes]

end Line

/-! ## One call -/

/--
The lines are directive lines of the source, they stand in the text in front, and a scan
that is not at its end can read them in this state.
-/
def State.CanRead (source front : Text) (lines : List DirectiveLine) (state : State) : Prop :=
  state.finished = false → ∃ bound, state.outline.Fits source bound ∧
    Spaced source bound lines ∧ ∀ line ∈ lines, line.span.stop ≤ Text.size front

/-- A scan at its end has no line to read. -/
theorem State.canRead_of_finished {source front : Text} {lines : List DirectiveLine}
    {state : State} (h : state.finished = true) : state.CanRead source front lines := by
  intro hUnfinished
  rw [h] at hUnfinished
  cases hUnfinished

/-- Having read a line, a scan can read the others. -/
theorem State.CanRead.read {setup : Setup} {front : Text} {line : DirectiveLine}
    {lines : List DirectiveLine} {state next : State}
    (h : state.CanRead setup.source front (line :: lines))
    (hRead : state.read setup line = .ok next) : next.CanRead setup.source front lines := by
  intro hFinished
  rw [State.read_finished hRead] at hFinished
  obtain ⟨bound, hFits, ⟨hBound, hStands, hSpaced⟩, hStops⟩ := h hFinished
  exact ⟨line.span.stop, State.fits_of_read hFits hStands hBound hRead, hSpaced,
    fun other hOther => hStops other (by simp [hOther])⟩

/-- A scan that has to read tries to. -/
theorem triesFrom_pos {setup : Setup} {state : State}
    (h : state.ready = [] ∧ state.finished = false) (upcoming : List DirectiveLine) :
    0 < triesFrom setup state upcoming := by
  cases upcoming with
  | nil => simp [triesFrom, h]
  | cons line upcoming =>
      rw [triesFrom, if_pos h]
      split
      · exact Nat.zero_lt_one
      · exact Nat.succ_pos _

/-- A scan that does not have to read does not try to. -/
theorem triesFrom_of_idle {setup : Setup} {state : State}
    (h : ¬ (state.ready = [] ∧ state.finished = false)) (upcoming : List DirectiveLine) :
    triesFrom setup state upcoming = 0 := by
  cases upcoming with
  | nil => rw [triesFrom, if_neg h]
  | cons line upcoming => rw [triesFrom, if_neg h]

/-- What a call gives that does not have to read does not depend on the source. -/
theorem exists_nextFrom_of_idle {state : State}
    (h : ¬ (state.ready = [] ∧ state.finished = false)) :
    ∃ outcome after, after.outline = state.outline ∧ after.finished = state.finished ∧
      ∀ setup upcoming, nextFrom setup state upcoming = (outcome, ⟨setup, after, upcoming⟩) := by
  cases hReady : state.ready with
  | cons placed ready =>
      refine ⟨.item placed, { state with ready }, rfl, rfl, ?_⟩
      intro setup upcoming
      rw [nextFrom_of_idle h, hReady]
  | nil =>
      refine ⟨.done, state, rfl, rfl, ?_⟩
      intro setup upcoming
      rw [nextFrom_of_idle h, hReady]

section Call

variable {setup : Setup} {front back : Text} (hSource : setup.source = front ++ back)
  (other : Text) (hLocal : ∀ finder ∈ setup.finders, finder.Local)
  (more more' : List DirectiveLine)

include hSource hLocal

/--
A call that reads no line behind the shared text gives the same on both sources, and
leaves both scans in the same state.
-/
theorem nextFrom_withSource {lines : List DirectiveLine} {state : State}
    (hCan : state.CanRead setup.source front lines)
    (hTries : triesFrom setup state (lines ++ more) ≤ lines.length) :
    ∃ outcome after rest,
      nextFrom setup state (lines ++ more) = (outcome, ⟨setup, after, rest ++ more⟩) ∧
      nextFrom (setup.withSource (front ++ other)) state (lines ++ more') =
        (outcome, ⟨setup.withSource (front ++ other), after, rest ++ more'⟩) ∧
      triesFrom (setup.withSource (front ++ other)) state (lines ++ more') =
        triesFrom setup state (lines ++ more) ∧
      triesFrom setup state (lines ++ more) + rest.length = lines.length ∧
      after.CanRead setup.source front rest := by
  by_cases hReads : state.ready = [] ∧ state.finished = false
  · match lines with
    | [] =>
        have hPos : 0 < triesFrom setup state ([] ++ more) := triesFrom_pos hReads _
        simp only [List.length_nil] at hTries
        omega
    | line :: lines =>
        obtain ⟨bound, hFits, ⟨hBound, hStands, _⟩, hStops⟩ := hCan hReads.2
        have hRead := State.read_withSource hSource other hLocal hFits hStands hBound
          (hStops line (by simp))
        rw [List.cons_append, triesFrom, if_pos hReads] at hTries
        rw [List.cons_append, List.cons_append, triesFrom, triesFrom, nextFrom, nextFrom]
        simp only [hReads.1, hReads.2, and_self, if_true, Bool.false_eq_true, if_false, hRead]
        cases hNext : state.read setup line with
        | error fault =>
            have hEnd : (state.haltAt line).finished = true := by
              unfold State.haltAt
              split
              · rfl
              · rfl
            exact ⟨.failed fault, state.haltAt line, lines, rfl, rfl, rfl,
              Nat.add_comm 1 lines.length, State.canRead_of_finished hEnd⟩
        | ok next =>
            simp only [hNext, List.length_cons] at hTries ⊢
            obtain ⟨outcome, after, rest, hHere, hThere, hSame, hRest, hAfter⟩ :=
              nextFrom_withSource (hCan.read hNext) (Nat.le_of_succ_le_succ hTries)
            exact ⟨outcome, after, rest, hHere, hThere, by rw [hSame], by omega, hAfter⟩
  · obtain ⟨outcome, after, hOutline, hFinished, hNext⟩ := exists_nextFrom_of_idle hReads
    refine ⟨outcome, after, lines, hNext _ _, hNext _ _, ?_, ?_, ?_⟩
    · rw [triesFrom_of_idle hReads, triesFrom_of_idle hReads]
    · rw [triesFrom_of_idle hReads, Nat.zero_add]
    · rw [State.CanRead, hOutline, hFinished]
      exact hCan

/-- Calls that read no line behind the shared text give the same on both sources. -/
theorem calls_withSource {lines : List DirectiveLine} {state : State} (n : Nat)
    (hCan : state.CanRead setup.source front lines)
    (hTries : (Cursor.mk setup state (lines ++ more)).triesBy (n + 1) ≤ lines.length) :
    let first := Cursor.mk setup state (lines ++ more)
    let second := Cursor.mk (setup.withSource (front ++ other)) state (lines ++ more')
    second.call n = first.call n ∧ (second.after (n + 1)).depth = (first.after (n + 1)).depth ∧
      second.triesBy (n + 1) = first.triesBy (n + 1) := by
  induction n generalizing lines state with
  | zero =>
      intro first second
      obtain ⟨outcome, after, rest, hFirst, hSecond, hSame, _, _⟩ :=
        nextFrom_withSource hSource other hLocal more more' hCan hTries
      have hFirst : first.next = (outcome, ⟨setup, after, rest ++ more⟩) := hFirst
      have hSecond : second.next =
        (outcome, ⟨setup.withSource (front ++ other), after, rest ++ more'⟩) := hSecond
      refine ⟨?_, ?_, ?_⟩
      · rw [Cursor.call_zero, Cursor.call_zero, hFirst, hSecond]
      · show second.next.2.depth = first.next.2.depth
        rw [hFirst, hSecond]
        rfl
      · exact hSame
  | succ n ih =>
      intro first second
      have hSplit : first.triesBy (n + 2) = first.tries + first.next.2.triesBy (n + 1) := rfl
      have hTries : first.triesBy (n + 2) ≤ lines.length := hTries
      have hOne : first.tries ≤ lines.length := by omega
      obtain ⟨outcome, after, rest, hFirst, hSecond, hSame, hRest, hAfter⟩ :=
        nextFrom_withSource hSource other hLocal more more' hCan hOne
      have hFirst : first.next = (outcome, ⟨setup, after, rest ++ more⟩) := hFirst
      have hSecond : second.next =
        (outcome, ⟨setup.withSource (front ++ other), after, rest ++ more'⟩) := hSecond
      have hRest : first.tries + rest.length = lines.length := hRest
      have hBehind : (Cursor.mk setup after (rest ++ more)).triesBy (n + 1) ≤ rest.length := by
        rw [hFirst] at hSplit
        show Cursor.triesBy (n + 1) (outcome, Cursor.mk setup after (rest ++ more)).2 ≤ _
        omega
      obtain ⟨hCall, hDepth, hLater⟩ := ih hAfter hBehind
      refine ⟨?_, ?_, ?_⟩
      · rw [Cursor.call_succ, Cursor.call_succ, hFirst, hSecond]
        exact hCall
      · show (second.next.2.after (n + 1)).depth = (first.next.2.after (n + 1)).depth
        rw [hFirst, hSecond]
        exact hDepth
      · show second.tries + second.next.2.triesBy (n + 1) =
          first.tries + first.next.2.triesBy (n + 1)
        rw [hFirst, hSecond, hLater]
        exact congrArg (· + _) hSame

end Call

/-! ## All calls -/

/--
A scan is online: take a source with a directive line that ends before a line feed, and
another source that is the same up to this line feed. As long as a scan of the first
source has tried to read no more than the lines up to this one, every call gives the same
on both sources, and leaves as many branches open. The finders must look at nothing but
the text of a region and its place.

And it is fused, whatever the finders do: after some items one call gives a fault or says
that the scan is done. Every later call says that it is done, the number of open branches
does not change any more, and after a fault nothing is left of what was buffered.
-/
theorem calls_online_fused (setup : Setup) :
    (∀ front back early line late, setup.source = front ++ '\n' :: back →
      directiveLines setup.source = early ++ line :: late →
      line.span.stop = Text.size front →
      (∀ finder ∈ setup.finders, finder.Local) →
      ∀ other,
        let first := Cursor.start setup
        let second := Cursor.start (setup.withSource (front ++ '\n' :: other))
        (∃ late', second.upcoming = early ++ line :: late') ∧
        ∀ n, first.triesBy (n + 1) ≤ (early ++ [line]).length →
          second.call n = first.call n ∧
          (second.after (n + 1)).depth = (first.after (n + 1)).depth ∧
          second.triesBy (n + 1) = first.triesBy (n + 1)) ∧
    ∃ last, (∀ n, n < last → ∃ placed, (Cursor.start setup).call n = .item placed) ∧
      (∀ placed, (Cursor.start setup).call last ≠ .item placed) ∧
      (∀ n, last < n → (Cursor.start setup).call n = .done ∧
        ((Cursor.start setup).after n).depth = ((Cursor.start setup).after (last + 1)).depth) ∧
      ∀ fault, (Cursor.start setup).call last = .failed fault → ∀ n, last < n →
        ((Cursor.start setup).after n).state.buffer = [] ∧
        ((Cursor.start setup).after n).state.ready = [] := by
  constructor
  · intro front back early line late hSource hLines hStop hLocal other first second
    have hCut : directiveLines (front ++ '\n' :: back) = early ++ line :: late := by
      rw [← hSource]
      exact hLines
    have hShared : second.upcoming =
        early ++ [line] ++ (directiveLines other).map (DirectiveLine.shift (Text.size front + 1)) :=
      directiveLines_shared hCut hStop other
    refine ⟨⟨_, hShared.trans (List.append_assoc _ _ _)⟩, ?_⟩
    intro n hTries
    have hSpaced : Spaced setup.source 0 (early ++ [line]) := by
      have hAll := spaced_directiveLines setup.source
      rw [hLines, ← List.singleton_append, ← List.append_assoc] at hAll
      exact hAll.left
    have hCan : State.initial.CanRead setup.source front (early ++ [line]) :=
      fun _ => ⟨0, Outline.fits_initial, hSpaced, stop_le_of_stop hCut hStop⟩
    have hFirst : first = ⟨setup, .initial, early ++ [line] ++ late⟩ := by
      show Cursor.start setup = _
      rw [Cursor.start, hLines, List.append_assoc]
      rfl
    have hSecond : second = ⟨setup.withSource (front ++ '\n' :: other), .initial,
        early ++ [line] ++
          (directiveLines other).map (DirectiveLine.shift (Text.size front + 1))⟩ := by
      rw [← hShared]
      rfl
    rw [hFirst] at hTries
    rw [hFirst, hSecond]
    exact calls_withSource hSource ('\n' :: other) hLocal late _ n hCan hTries
  · obtain ⟨items, outcome, last, hGives⟩ := (Cursor.start setup).exists_gives
    refine ⟨items.length, ?_, ?_, ?_, ?_⟩
    · intro n hn
      exact ⟨items[n], hGives.call_item (List.getElem?_eq_getElem hn)⟩
    · rw [hGives.call_length]
      exact hGives.ne_item
    · intro n hn
      rw [hGives.after_eq hn, hGives.after_eq (Nat.lt_succ_self _)]
      exact ⟨hGives.call_done hn, rfl⟩
    · intro fault hFault n hn
      rw [hGives.call_length] at hFault
      subst hFault
      rw [hGives.after_eq hn]
      exact ⟨hGives.buffer_eq_nil, hGives.exhausted.ready⟩

theorem local_firstByte : firstByte.Local := fun _ _ _ _ _ _ => rfl

/-- A source with text before a block. -/
def Setup.preceded : Setup where
  source := "x\n#if A\n#endif\n".toList
  finders := [firstByte]
  unguardedOutermost := false

/-- What stands at the first byte of that source. -/
def Setup.precededFirst : Placed :=
  ⟨0, .entity (.enumeration ⟨"first".toList, "first".toList, [], ⟨0, 1⟩⟩)⟩

theorem directiveLines_preceded : directiveLines Setup.preceded.source =
    [] ++ ⟨.opens .expression, "A".toList, ⟨2, 7⟩⟩ :: [⟨.closes .final, [], ⟨8, 14⟩⟩] := by
  decide +kernel

/-- At the first directive line the text before it is looked at. -/
theorem read_preceded :
    State.initial.read Setup.preceded ⟨.opens .expression, "A".toList, ⟨2, 7⟩⟩ =
      .ok ⟨[⟨⟨.expression, "A".toList⟩, ⟨2, 7⟩⟩], 0, false, [], [Setup.precededFirst], false⟩ := by
  have hOrdered : Placed.ordered [Setup.precededFirst] = [Setup.precededFirst] := by
    rw [Placed.ordered, Placed.sorted, List.mergeSort_singleton]
    rfl
  rw [← hOrdered]
  rfl

/-- The text before the block is handed out at the line that opens it, even if no line closes it. -/
theorem calls_preceded :
    let first := Cursor.start Setup.preceded
    let second := Cursor.start
      (Setup.preceded.withSource ("x\n#if A".toList ++ '\n' :: "y\n".toList))
    first.triesBy 1 = 1 ∧ (∀ finder ∈ Setup.preceded.finders, finder.Local) ∧
      second.call 0 = first.call 0 ∧ (second.after 1).depth = (first.after 1).depth ∧
      second.call 0 = .item Setup.precededFirst := by
  intro first second
  have hStart : first = ⟨Setup.preceded, .initial, _⟩ :=
    congrArg (Cursor.mk Setup.preceded .initial) directiveLines_preceded
  have hTries : first.triesBy 1 = 1 := by
    show first.tries + 0 = 1
    rw [hStart, Cursor.tries, List.nil_append, triesFrom, read_preceded]
    rfl
  have hFirst : first.call 0 = .item Setup.precededFirst := by
    rw [hStart, Cursor.call_zero, List.nil_append, Cursor.next_read rfl rfl read_preceded,
      Cursor.next_ready rfl]
  have hLocal : ∀ finder ∈ Setup.preceded.finders, finder.Local := by
    intro finder hFinder
    obtain rfl : finder = firstByte := List.mem_singleton.mp hFinder
    exact local_firstByte
  have hSource : Setup.preceded.source = "x\n#if A".toList ++ '\n' :: "#endif\n".toList := by
    decide +kernel
  obtain ⟨_, hCalls⟩ := (calls_online_fused Setup.preceded).1 _ _ _ _ _ hSource
    directiveLines_preceded (by decide +kernel) hLocal "y\n".toList
  obtain ⟨hCall, hDepth, _⟩ := hCalls 0 (Nat.le_of_eq hTries)
  exact ⟨hTries, hLocal, hCall, hDepth, hCall.trans hFirst⟩

end Scan

end ValueNames
