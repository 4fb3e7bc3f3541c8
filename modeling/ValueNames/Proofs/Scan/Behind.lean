import ValueNames.Proofs.Conditional.Seam
import ValueNames.Proofs.Finder.Local
import ValueNames.Proofs.Scan.Outputs

/-!
# A scan of a source that stands behind another text

Put a source behind some text and a line feed. A scan that reads the directive lines of
the source there does what a scan of the source on its own does, with everything further
behind. Only the text at the start of the source is read with one character more: it takes
in the line feed. The line feed opens no brace, and the finders must not mind it.

## Main results

* `State.read_behind`, `State.finish_behind` — reading a line, or the end, behind the text.
* `State.outputs_behind` — everything that is handed out from there on.
-/

namespace ValueNames

/-- The scope of a source that stands further behind. -/
def Scope.shift (base : Nat) (scope : Scope) : Scope :=
  ⟨scope.block.shift base, scope.closedAt + base⟩

namespace Scan

open Conditional

/-- A line feed at the start of a text opens no brace. -/
theorem leavesBraceOpen_gap {gap : Text} (hGap : gap = [] ∨ gap = ['\n']) (s : Text) :
    leavesBraceOpen (gap ++ s) = leavesBraceOpen s := by
  rcases hGap with rfl | rfl
  · rfl
  · rfl

/-! ## Where everything stands -/

/-- The source of a scan, put behind a text and a line feed. -/
def Setup.behind (front : Text) (setup : Setup) : Setup :=
  { setup with source := front ++ '\n' :: setup.source }

/-- Where pending text starts. At the start of the source it takes in the line feed. -/
def pendingBehind (front : Text) (pendingFrom : Nat) : Nat :=
  if pendingFrom = 0 then Text.size front else pendingFrom + (Text.size front + 1)

def Part.behind (front : Text) : Part → Part
  | .topLevel region =>
      .topLevel ⟨pendingBehind front region.start, region.stop + (Text.size front + 1)⟩
  | .branch scope outermost => .branch (scope.shift (Text.size front + 1)) outermost

def Outline.behind (front : Text) (outline : Outline) : Outline where
  blocks := outline.blocks.map (Block.shift (Text.size front + 1))
  pendingFrom := pendingBehind front outline.pendingFrom
  embedded := outline.embedded

def State.behind (front : Text) (state : State) : State :=
  { state with
    blocks := state.blocks.map (Block.shift (Text.size front + 1))
    pendingFrom := pendingBehind front state.pendingFrom
    buffer := state.buffer.map (Placed.shift (Text.size front + 1))
    ready := state.ready.map (Placed.shift (Text.size front + 1)) }

/-- The result for a source that was put behind a text and a line feed. -/
def resultBehind {α β : Type} (front : Text) (f : α → β) :
    Except Fault α → Except Fault β :=
  shiftResult (Text.size front + 1) (front.count '\n' + 1) f

variable (front : Text)

/-! ## Text -/

section Text

variable {source : Text}

theorem slice?_behind (start stop : Nat) :
    Text.slice? (front ++ '\n' :: source) (start + (Text.size front + 1))
      (stop + (Text.size front + 1)) = Text.slice? source start stop := by
  have hSplit : front ++ '\n' :: source = front ++ ['\n'] ++ source := by simp
  have hSize : Text.size (front ++ ['\n']) = Text.size front + 1 := Text.size_append _ _
  rw [hSplit, ← hSize, Text.slice?_append_right]

/-- The text of a pending region behind the line feed, which is part of it at the start. -/
theorem exists_slice?_pendingBehind {start stop : Nat} {text : Text}
    (h : Text.slice? source start stop = some text) :
    ∃ gap, (gap = [] ∨ gap = ['\n']) ∧
      Text.slice? (front ++ '\n' :: source) (pendingBehind front start)
        (stop + (Text.size front + 1)) = some (gap ++ text) ∧
      pendingBehind front start + Text.size gap = start + (Text.size front + 1) := by
  by_cases hStart : start = 0
  · subst hStart
    obtain ⟨ahead, back, hSource, hAhead, hStop⟩ := Text.slice?_eq_some_iff.mp h
    obtain rfl := Text.eq_nil_of_size_eq_zero hAhead
    have hFeed : Text.size ('\n' :: text) = 1 + Text.size text := Text.size_cons _ _
    rw [pendingBehind, if_pos rfl]
    refine ⟨['\n'], .inr rfl, ?_, ?_⟩
    · refine Text.slice?_eq_some_iff.mpr ⟨front, back, by simp [hSource], rfl, ?_⟩
      show Text.size front + Text.size ('\n' :: text) = _
      omega
    · exact (Nat.zero_add _).symm
  · rw [pendingBehind, if_neg hStart]
    exact ⟨[], .inl rfl, (slice?_behind front start stop).trans h, rfl⟩

theorem braceOpen_behind {start stop : Nat} {text : Text}
    (h : Text.slice? source start stop = some text) :
    braceOpen (front ++ '\n' :: source) (pendingBehind front start)
      (stop + (Text.size front + 1)) = braceOpen source start stop := by
  obtain ⟨gap, hGap, hText, _⟩ := exists_slice?_pendingBehind front h
  rw [braceOpen, braceOpen, h, hText, Option.any_some, Option.any_some, leavesBraceOpen_gap hGap]

/-- Behind the text, lines are counted on from its line feeds. -/
theorem line_behind (span : Span) :
    (span.shift (Text.size front + 1)).line (front ++ '\n' :: source) =
      span.line source + (front.count '\n' + 1) := by
  have hSplit : front ++ '\n' :: source = front ++ ['\n'] ++ source := by simp
  have hSize : Text.size (front ++ ['\n']) = Text.size front + 1 := Text.size_append _ _
  have hCount : (front ++ ['\n']).count '\n' = front.count '\n' + 1 := by simp
  have hStart : span.start + (Text.size front + 1) =
      Text.size (front ++ ['\n']) + span.start := by omega
  rw [Span.line, Span.line, Span.shift, hStart, hSplit, Text.lineOf_append, hCount, Nat.add_comm]

end Text

/-! ## Parts -/

section Parts

variable {setup : Setup}

theorem placeEntity_shift (entity : Entity) :
    placeEntity (entity.shift (Text.size front + 1)) =
      resultBehind front (Placed.shift (Text.size front + 1)) (placeEntity entity) := by
  cases entity with
  | enumeration declared => rfl
  | macroGroup group =>
      simp only [Entity.shift, placeEntity, MacroGroup.span?_shift]
      cases group.span? with
      | none => rfl
      | some span => rfl

/-- What is seen in a region moves with its text, and a line feed before it is not seen. -/
theorem Setup.look_behind (hMovable : ∀ finder ∈ setup.finders, finder.Movable)
    {region region' : Span} {text gap : Text} (hText : regionText setup.source region = .ok text)
    (hText' : regionText (setup.behind front).source region' = .ok (gap ++ text))
    (hGap : gap = [] ∨ gap = ['\n'])
    (hStart : region'.start + Text.size gap = region.start + (Text.size front + 1)) :
    (setup.behind front).look region' =
      resultBehind front (List.map (Placed.shift (Text.size front + 1))) (setup.look region) := by
  have hOne : ∀ finder ∈ setup.finders,
      placedBy (setup.behind front).source region' finder =
        resultBehind front (List.map (Placed.shift (Text.size front + 1)))
          (placedBy setup.source region finder) := by
    intro finder hFinder
    rw [placedBy, placedBy,
      (hMovable finder hFinder).find_eq (front.count '\n' + 1) hText hText' hGap hStart]
    refine shiftResult_bind _ _ ?_ _
    intro entities
    exact shiftResult_mapM _ _ fun entity _ => placeEntity_shift front entity
  have hAll : (setup.finders.map id).mapM (placedBy (setup.behind front).source region') = _ :=
    shiftResult_mapM _ _ hOne
  rw [List.map_id] at hAll
  show (setup.finders.mapM (placedBy (setup.behind front).source region')).map _ = _
  rw [hAll]
  refine shiftResult_map _ _ ?_ _
  intro lists
  exact List.map_flatten.symm

/-- In an empty region nothing is seen. -/
theorem Setup.look_nil (hMovable : ∀ finder ∈ setup.finders, finder.Movable) {region : Span}
    (hText : regionText setup.source region = .ok []) : setup.look region = .ok [] := by
  have hNone : ∀ finder ∈ setup.finders, placedBy setup.source region finder = .ok [] := by
    intro finder hFinder
    rw [placedBy, (hMovable finder hFinder).find_nil hText]
    rfl
  rw [look]
  generalize setup.finders = finders at hNone
  induction finders with
  | nil => rfl
  | cons finder rest ih =>
      obtain ⟨lists, hLists, hFlat⟩ := map_eq_ok_iff.mp (ih fun other hOther =>
        hNone other (by simp [hOther]))
      rw [List.mapM_cons, hNone finder (by simp), hLists]
      exact congrArg Except.ok hFlat

theorem guarded_shift (base : Nat) (block : Block) (closeOffset : Nat) (entities : List Placed) :
    guarded (block.shift base) (closeOffset + base) (entities.map (Placed.shift base)) =
      (guarded block closeOffset entities).map (Placed.shift base) := by
  unfold guarded
  by_cases hNone : entities = []
  · rw [if_pos hNone, if_pos (by rw [hNone]; rfl), List.map_nil]
  · rw [if_neg hNone, if_neg (by simpa using hNone)]
    simp [Placed.shift, Item.shift, Block.shift, Span.shift]

/-- What is found in a part of the source is found in it behind the text. -/
theorem Setup.items_behind (hMovable : ∀ finder ∈ setup.finders, finder.Movable) {part : Part}
    (hFits : part.Fits setup.source) :
    (setup.behind front).items (part.behind front) =
      resultBehind front (List.map (Placed.shift (Text.size front + 1))) (setup.items part) := by
  obtain ⟨text, hText⟩ := hFits.exists_text
  have hSlice := regionText_eq_ok_iff.mp hText
  cases part with
  | topLevel region =>
      have hOrder : region.start ≤ region.stop := hFits.start_le_stop
      obtain ⟨gap, hGap, hText', hStart⟩ := exists_slice?_pendingBehind front hSlice
      have hLook : (setup.behind front).look ⟨pendingBehind front region.start,
          region.stop + (Text.size front + 1)⟩ = _ :=
        look_behind front hMovable hText (regionText_eq_ok_iff.mpr hText') hGap hStart
      simp only [items, Part.behind]
      by_cases hSome : region.start < region.stop
      · have hSome' : pendingBehind front region.start < region.stop + (Text.size front + 1) := by
          have hStart : pendingBehind front region.start + Text.size gap =
            region.start + (Text.size front + 1) := hStart
          omega
        rw [if_pos hSome, if_pos hSome', hLook]
        rfl
      · -- The region is empty, but the line feed may make a region out of it.
        obtain ⟨ahead, back, _, hAhead, hStop⟩ := Text.slice?_eq_some_iff.mp hSlice
        have hEmpty : text = [] := by
          apply Text.eq_nil_of_size_eq_zero
          show Text.size text = 0
          have hSame : region.start = region.stop := by omega
          have hEnd : Text.size ahead + Text.size text = region.stop := hStop
          have hBegin : Text.size ahead = region.start := hAhead
          omega
        rw [if_neg hSome, hLook, look_nil hMovable (hEmpty ▸ hText)]
        split
        · rfl
        · rfl
  | branch scope outermost =>
      have hText' : regionText (setup.behind front).source
          (scope.region.shift (Text.size front + 1)) = .ok ([] ++ text) :=
        regionText_eq_ok_iff.mpr ((slice?_behind front _ _).trans hSlice)
      have hLook : (setup.behind front).look (scope.shift (Text.size front + 1)).region = _ :=
        look_behind front hMovable hText hText' (.inl rfl) rfl
      simp only [items, Part.behind, hLook]
      refine shiftResult_map _ _ ?_ _
      intro entities
      show (if setup.unguardedOutermost ∧ outermost then _ else _) = _
      split
      · rfl
      · exact guarded_shift _ _ _ _

end Parts

/-! ## Outlines -/

namespace Outline

variable {source : Text} {line : DirectiveLine} {outline : Outline}

section Brace

-- Whether a block is embedded is the same behind the text.
variable (hBrace : braceOpen (front ++ '\n' :: source) (pendingBehind front outline.pendingFrom)
  (line.span.start + (Text.size front + 1)) =
    braceOpen source outline.pendingFrom line.span.start)

include hBrace

/-- Reading a line of the source behind the text. -/
theorem read_behind (hStop : 0 < line.span.stop) :
    (outline.behind front).read (front ++ '\n' :: source) (line.shift (Text.size front + 1)) =
      resultBehind front (behind front) (outline.read source line) := by
  obtain ⟨blocks, pendingFrom, embedded⟩ := outline
  obtain ⟨directive, condition, span⟩ := line
  cases directive with
  | opens opener =>
      cases blocks with
      | nil => exact congrArg (fun brace => Except.ok (Outline.mk _ _ brace)) hBrace
      | cons block outer => rfl
  | closes closer =>
      match closer, blocks with
      | closer, [] =>
          show Except.error (Fault.strayCloser ((span.shift _).line _) closer) = _
          rw [line_behind]
          cases closer <;> rfl
      | .alternative, block :: outer => rfl
      | .final, [block] =>
          have hSpan : pendingBehind front span.stop = span.stop + (Text.size front + 1) :=
            if_neg (Nat.ne_of_gt hStop)
          cases embedded with
          | true => rfl
          | false => exact congrArg (fun start => Except.ok (Outline.mk [] start false)) hSpan.symm
      | .final, block :: around :: outer => rfl

theorem flushes_behind :
    (outline.behind front).flushes (front ++ '\n' :: source)
      (line.shift (Text.size front + 1)) = outline.flushes source line := by
  obtain ⟨blocks, pendingFrom, embedded⟩ := outline
  obtain ⟨directive, condition, span⟩ := line
  cases directive with
  | opens opener =>
      cases blocks with
      | nil => exact congrArg not hBrace
      | cons block outer => rfl
  | closes closer =>
      match closer, blocks with
      | .alternative, _ => rfl
      | .final, [] => rfl
      | .final, [block] => rfl
      | .final, block :: around :: outer => rfl

theorem part?_behind :
    (outline.behind front).part? (front ++ '\n' :: source)
      (line.shift (Text.size front + 1)) = (outline.part? source line).map (Part.behind front) := by
  obtain ⟨blocks, pendingFrom, embedded⟩ := outline
  obtain ⟨directive, condition, span⟩ := line
  cases directive with
  | opens opener =>
      cases blocks with
      | nil =>
          simp only at hBrace
          simp only [part?, behind, DirectiveLine.shift, Span.shift, List.map_nil, hBrace]
          split
          · rfl
          · rfl
      | cons block outer => rfl
  | closes closer =>
      cases blocks with
      | nil => rfl
      | cons block outer =>
          cases outer with
          | nil => rfl
          | cons around outer => rfl

end Brace

end Outline

/-! ## States -/

theorem State.advance_behind (next : Outline) (flushes : Bool) (found : List Placed)
    (state : State) :
    (state.behind front).advance (next.behind front) flushes
      (found.map (Placed.shift (Text.size front + 1))) =
        (state.advance next flushes found).behind front := by
  cases flushes with
  | false => simp [advance, behind, Outline.behind]
  | true => simp [advance, behind, Outline.behind, ← Placed.ordered_shift]

section Steps

variable {setup : Setup} (hMovable : ∀ finder ∈ setup.finders, finder.Movable) {bound : Nat}

include hMovable

/-- Reading a line of the source behind the text does what reading it in the source does. -/
theorem State.read_behind {state : State} {line : DirectiveLine}
    (hFits : state.outline.Fits setup.source bound) (hStands : line.StandsIn setup.source)
    (hBound : bound ≤ line.span.start) :
    (state.behind front).read (setup.behind front) (line.shift (Text.size front + 1)) =
      resultBehind front (behind front) (state.read setup line) := by
  have hOwn := hStands.start_lt_stop
  obtain ⟨text, hText⟩ := Text.exists_slice? (Text.isBoundary_of_start hFits.pending.2)
    hStands.isBoundary_start (Nat.le_trans hFits.pending.1 hBound)
  obtain ⟨gap, _, hText', _⟩ := exists_slice?_pendingBehind front hText
  have hBrace := braceOpen_behind front hText
  have hRead : (state.behind front).outline.read (setup.behind front).source
      (line.shift (Text.size front + 1)) = _ :=
    Outline.read_behind front hBrace (by omega)
  have hFlushes : (state.behind front).outline.flushes (setup.behind front).source
      (line.shift (Text.size front + 1)) = _ := Outline.flushes_behind front hBrace
  have hPart : (state.behind front).outline.part? (setup.behind front).source
      (line.shift (Text.size front + 1)) = _ := Outline.part?_behind front hBrace
  have hFound : (state.behind front).found (setup.behind front)
      (line.shift (Text.size front + 1)) =
        resultBehind front (List.map (Placed.shift (Text.size front + 1)))
          (state.found setup line) := by
    rw [found, found, hPart]
    cases hSome : state.outline.part? setup.source line with
    | none => rfl
    | some part => exact Setup.items_behind front hMovable (hFits.part hStands hBound hSome).1
  rw [read_eq hText, read_eq hText', hRead, hFlushes, hFound]
  refine shiftResult_bind _ _ ?_ _
  intro next
  refine shiftResult_map _ _ ?_ _
  intro items
  exact advance_behind front next _ items state

/-- So does reading the end of the source. -/
theorem State.finish_behind {state : State} (hFits : state.outline.Fits setup.source bound)
    (hSize : bound ≤ Text.size setup.source) :
    (state.behind front).finish (setup.behind front) =
      resultBehind front (behind front) (state.finish setup) := by
  obtain ⟨blocks, pendingFrom, embedded, buffer, ready, finished⟩ := state
  cases blocks with
  | nil =>
      have hFeed : Text.size ('\n' :: setup.source) = 1 + Text.size setup.source :=
        Text.size_cons _ _
      have hEnd : Text.size (setup.behind front).source =
          Text.size setup.source + (Text.size front + 1) := by
        show Text.size (front ++ '\n' :: setup.source) = _
        rw [Text.size_append]
        omega
      have hNone : Spaced setup.source bound [] := trivial
      have hPart : (Part.topLevel ⟨pendingFrom, Text.size setup.source⟩).Fits setup.source :=
        Outline.fits_of_mem_parts hFits hNone hSize List.mem_cons_self
      show topLevel _ ⟨pendingBehind front pendingFrom, Text.size (setup.behind front).source⟩ _ =
        resultBehind front (behind front) (topLevel setup _ _)
      rw [topLevel_eq, topLevel_eq, hEnd]
      have hItems : (setup.behind front).items (.topLevel ⟨pendingBehind front pendingFrom,
          Text.size setup.source + (Text.size front + 1)⟩) = _ :=
        Setup.items_behind front hMovable hPart
      rw [hItems]
      refine shiftResult_map _ _ ?_ _
      intro items
      simp [flush, behind, ← Placed.ordered_shift]
  | cons block outer =>
      show Except.error (Fault.neverClosed ((block.opened.shift _).line
        (front ++ '\n' :: setup.source)) block.guard) = _
      rw [line_behind]
      rfl

/-- Everything that is handed out behind the text is what the source holds, further behind. -/
theorem State.outputs_behind {lines : List DirectiveLine} {state : State}
    (hFits : state.outline.Fits setup.source bound) (hSize : bound ≤ Text.size setup.source)
    (hLines : Spaced setup.source bound lines) :
    (state.behind front).outputs (setup.behind front)
      (lines.map (DirectiveLine.shift (Text.size front + 1))) =
        ((state.outputs setup lines).1.map (Placed.shift (Text.size front + 1)),
          (state.outputs setup lines).2.map
            (Fault.shift (Text.size front + 1) (front.count '\n' + 1))) := by
  induction lines generalizing state bound with
  | nil =>
      rw [List.map_nil, outputs, outputs, finish_behind front hMovable hFits hSize]
      cases state.finish setup with
      | error fault => rfl
      | ok last => rfl
  | cons line rest ih =>
      obtain ⟨hBound, hStands, hRest⟩ := hLines
      rw [List.map_cons, outputs, outputs, read_behind front hMovable hFits hStands hBound]
      cases hRead : state.read setup line with
      | error fault => rfl
      | ok next =>
          have hNext := fits_of_read hFits hStands hBound hRead
          exact ih hNext hStands.isLineEnd_stop.isBoundary.le_size hRest

end Steps

end Scan

end ValueNames
