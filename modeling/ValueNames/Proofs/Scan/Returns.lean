import ValueNames.Proofs.Conditional.Returns
import ValueNames.Proofs.Finder.Returns
import ValueNames.Proofs.Scan.Collect
import ValueNames.Proofs.Scan.Online

/-!
# Scans and carriage returns

Without the carriage returns of a source the same parts of it are looked at, in the same
order, and the finders find the same there. So a scan hands out the same items, and fails for
the same reason.

A part ends where a line begins or at the end of the source, so that no line end is cut in two.

## Main results

* `Outline.parts_bareIn`, `Outline.fault?_bareIn` — what is looked at, and what is wrong with
  the nesting.
* `Setup.items_bare` — what is found in a part.
* `collect_bare` — all items of a scan.
-/

namespace ValueNames

open Text

/-- The scope in the text without carriage returns. -/
def Scope.bareIn (source : Text) (scope : Scope) : Scope :=
  ⟨scope.block.bareIn source, bareOffset source scope.closedAt⟩

namespace Scan

open Conditional

/-! ## Braces -/

/-- No character of a line end counts, in quotes or outside. -/
theorem braceDepth_lineEnd {c : Char} (hc : c = '\r' ∨ c = '\n') {quote : Option Char}
    (hQuote : ∀ q ∈ quote, q = '"' ∨ q = '\'') (depth : Int) (s : Text) :
    braceDepth depth quote (c :: s) = braceDepth depth quote s := by
  rw [braceDepth.eq_def]
  cases quote with
  | none => rcases hc with rfl | rfl <;> simp
  | some q =>
      rcases hc with rfl | rfl <;> rcases hQuote q rfl with rfl | rfl <;> simp

/-- The carriage returns do not count, and behind a backslash the line feed does not. -/
theorem braceDepth_bare {s : Text} (h : Paired s) (depth : Int) {quote : Option Char}
    (hQuote : ∀ q ∈ quote, q = '"' ∨ q = '\'') :
    braceDepth depth quote (bare s) = braceDepth depth quote s := by
  fun_induction braceDepth depth quote s with
  | case1 => rfl
  | case2 depth q => rw [bare_cons (by decide)]; rfl
  | case3 depth q d rest ih =>
      have hRest := ih h.tail.tail hQuote
      rw [bare_cons (by decide)]
      by_cases hd : d = '\r'
      · subst hd
        obtain ⟨next, rfl⟩ := h.tail.exists_of_return
        rw [bare_cons (by decide), braceDepth_lineEnd (.inr rfl) hQuote] at hRest
        rw [← hRest]
        rfl
      · rw [bare_cons hd, ← hRest]
        rfl
  | case4 depth c s q hc ih =>
      by_cases hReturn : c = '\r'
      · have hq : ¬ c = q := by
          rintro rfl
          rcases hQuote c rfl with rfl | rfl <;> cases hReturn
        subst hReturn
        rw [if_neg hq] at ih ⊢
        exact ih h.tail hQuote
      · rw [bare_cons hReturn, braceDepth.eq_def]
        simp only [hc, if_false]
        exact ih h.tail (by split <;> simp_all)
  | case5 depth c s hc ih =>
      rw [bare_cons (by rintro rfl; simp at hc), braceDepth.eq_def]
      simp only [hc, if_true]
      exact ih h.tail (by simpa [eq_comm] using hc)
  | case6 depth s hPlain ih =>
      rw [bare_cons (by decide), braceDepth.eq_def]
      simp only [hPlain, if_false, if_true]
      exact ih h.tail (by simp)
  | case7 depth s hPlain hOpening ih =>
      rw [bare_cons (by decide), braceDepth.eq_def]
      simp only [hPlain, hOpening, if_false, if_true]
      exact ih h.tail (by simp)
  | case8 depth c s hPlain hOpening hClosing ih =>
      by_cases hReturn : c = '\r'
      · subst hReturn
        exact ih h.tail (by simp)
      · rw [bare_cons hReturn, braceDepth.eq_def]
        simp only [hPlain, hOpening, hClosing, if_false]
        exact ih h.tail (by simp)

theorem leavesBraceOpen_bare {s : Text} (h : Paired s) :
    leavesBraceOpen (bare s) = leavesBraceOpen s := by
  rw [leavesBraceOpen, leavesBraceOpen, braceDepth_bare h 0 (by simp)]

/-! ## Pieces of a source -/

/-- A piece that ends where a line begins, or with the text, cuts no line end in two. -/
theorem paired_of_slice? {source text : Text} (h : Paired source) {start stop : Nat}
    (hText : slice? source start stop = some text)
    (hStop : stop = size source ∨ IsLineStart source stop) : Paired text := by
  obtain ⟨front, back, rfl, rfl, rfl⟩ := slice?_eq_some_iff.mp hText
  rcases hStop with hEnd | ⟨ahead, rest, hSplit, hAhead, hSize⟩
  · have hBack : back = [] := by
      apply eq_nil_of_size_eq_zero
      rw [size_append, size_append] at hEnd
      omega
    rw [hBack, List.append_nil] at h
    exact h.of_append_right
  · rw [List.append_assoc] at h
    refine h.of_append_right.of_append_left fun hLast => ?_
    obtain ⟨own, rfl⟩ := List.getLast?_eq_some_iff.mp hLast
    rw [← size_append] at hSize
    have hSame := (append_inj_of_size hSplit hSize.symm).1
    rcases hAhead with rfl | ⟨line, rfl⟩
    · simp at hSame
    · simpa using congrArg List.getLast? hSame

theorem braceOpen_bare {source : Text} (h : Paired source) {start stop : Nat}
    (hStart : IsBoundary source start) (hOrder : start ≤ stop) (hStop : IsLineStart source stop) :
    braceOpen (bare source) (bareOffset source start) (bareOffset source stop) =
      braceOpen source start stop := by
  obtain ⟨text, hText⟩ := exists_slice? hStart hStop.isBoundary hOrder
  rw [braceOpen, braceOpen, hText, slice?_bare hText, Option.any_some, Option.any_some,
    leavesBraceOpen_bare (paired_of_slice? h hText (.inr hStop))]

/-! ## Parts -/

def Part.bareIn (source : Text) : Part → Part
  | .topLevel region => .topLevel (region.bareIn source)
  | .branch scope outermost => .branch (scope.bareIn source) outermost

/-- A part that is cut out of a source between lines of the source. -/
structure Part.Settled (source : Text) (part : Part) : Prop where
  fits : part.Fits source
  stop : part.region.stop = size source ∨ IsLineStart source part.region.stop
  isSolid : ∀ scope outermost, part = .branch scope outermost →
    IsSolid source scope.block.opened.start ∧ IsSolid source scope.closedAt

theorem placeEntity_bareIn (source : Text) (entity : Entity) :
    placeEntity (entity.bareIn source) =
      bareResult source (Placed.bareIn source) (placeEntity entity) := by
  cases entity with
  | enumeration declared => rfl
  | macroGroup group =>
      simp only [Entity.bareIn, placeEntity, MacroGroup.span?_bareIn]
      cases group.span? with
      | none => rfl
      | some span => rfl

theorem guarded_bareIn (source : Text) (block : Block) (closeOffset : Nat)
    (entities : List Placed) :
    guarded (block.bareIn source) (bareOffset source closeOffset)
      (entities.map (Placed.bareIn source)) =
        (guarded block closeOffset entities).map (Placed.bareIn source) := by
  unfold guarded
  by_cases hNone : entities = []
  · rw [if_pos hNone, if_pos (by rw [hNone]; rfl), List.map_nil]
  · rw [if_neg hNone, if_neg (by simpa using hNone)]
    simp [Placed.bareIn, Item.bareIn, Block.bareIn, Span.bareIn, Guard.opening_bare,
      Guard.closing_bare]

namespace Setup

variable {setup : Setup} (hBlind : ∀ finder ∈ setup.finders, finder.Blind)

/-- The scan of the source without carriage returns. -/
def bare (setup : Setup) : Setup := setup.withSource (Text.bare setup.source)

@[simp] theorem bare_source (setup : Setup) : setup.bare.source = Text.bare setup.source := rfl

include hBlind

/-- The same is seen in a region without carriage returns. -/
theorem look_bare {region : Span} {text : Text} (hText : regionText setup.source region = .ok text)
    (hPaired : Paired text) :
    setup.bare.look (region.bareIn setup.source) =
      bareResult setup.source (List.map (Placed.bareIn setup.source)) (setup.look region) := by
  have hOne : ∀ finder ∈ setup.finders,
      placedBy (Text.bare setup.source) (region.bareIn setup.source) finder =
        bareResult setup.source (List.map (Placed.bareIn setup.source))
          (placedBy setup.source region finder) := by
    intro finder hFinder
    rw [placedBy, placedBy, (hBlind finder hFinder).find_bare hText hPaired]
    refine mapResult_bind fun entities _ => ?_
    exact mapResult_mapM fun entity _ => placeEntity_bareIn setup.source entity
  have hAll : (setup.finders.map id).mapM (placedBy (Text.bare setup.source)
      (region.bareIn setup.source)) = _ := mapResult_mapM hOne
  rw [List.map_id] at hAll
  show (setup.finders.mapM (placedBy (Text.bare setup.source) _)).map _ = _
  rw [hAll]
  exact mapResult_map fun lists _ => List.map_flatten.symm

/-- The same is found in a part without carriage returns. -/
theorem items_bare (hPaired : Paired setup.source) {part : Part}
    (hSettled : part.Settled setup.source) :
    setup.bare.items (part.bareIn setup.source) =
      bareResult setup.source (List.map (Placed.bareIn setup.source)) (setup.items part) := by
  obtain ⟨text, hText⟩ := hSettled.fits.exists_text
  have hSlice := regionText_eq_ok_iff.mp hText
  have hOwn := paired_of_slice? hPaired hSlice hSettled.stop
  have hLook := look_bare hBlind hText hOwn
  cases part with
  | topLevel region =>
      have hOrder : (region.bareIn setup.source).start < (region.bareIn setup.source).stop ↔
          region.start < region.stop := bareOffset_lt_iff_of_slice? hSlice hOwn
      show (if _ < _ then setup.bare.look (region.bareIn setup.source) else _) =
        bareResult _ _ (if region.start < region.stop then setup.look region else _)
      by_cases hSome : region.start < region.stop
      · rw [if_pos hSome, if_pos (hOrder.mpr hSome)]
        exact hLook
      · rw [if_neg hSome, if_neg fun hLess => hSome (hOrder.mp hLess)]
        rfl
  | branch scope outermost =>
      show (setup.bare.look (scope.region.bareIn setup.source)).map _ = _
      have hLook : setup.bare.look (scope.region.bareIn setup.source) = _ := hLook
      rw [hLook]
      refine mapResult_map fun entities _ => ?_
      show (if setup.unguardedOutermost ∧ outermost then _ else _) = _
      split
      · rfl
      · exact guarded_bareIn _ _ _ _

/-- The items of a part stand before other characters than carriage returns. -/
theorem isSolid_of_mem_itemsOf {part : Part} (hSettled : part.Settled setup.source)
    {placed : Placed} (h : placed ∈ setup.itemsOf part) : IsSolid setup.source placed.offset := by
  have hSeen : ∀ region, placed ∈ setup.seen region → IsSolid setup.source placed.offset := by
    intro region hMem
    obtain ⟨finder, hFinder, entities, hFind, entity, hEntity, hPlaced⟩ := mem_seen_iff.mp hMem
    obtain ⟨span, hSpan, rfl⟩ := Option.map_eq_some_iff.mp hPlaced
    exact (hBlind finder hFinder).isSolid hFind entity hEntity span hSpan
  cases part with
  | topLevel region => exact hSeen region h
  | branch scope outermost =>
      obtain ⟨hOpened, hClosed⟩ := hSettled.isSolid scope outermost rfl
      simp only [itemsOf] at h
      split at h
      · exact hSeen _ h
      · simp only [List.cons_append, List.mem_cons, List.mem_append, List.not_mem_nil,
          or_false] at h
        rcases h with rfl | h | rfl
        · exact hOpened
        · exact hSeen _ h
        · exact hClosed

/-- The same is gathered from all parts. -/
theorem gather_bare (hPaired : Paired setup.source) {parts : List Part}
    (hSettled : ∀ part ∈ parts, part.Settled setup.source) :
    setup.bare.gather (parts.map (Part.bareIn setup.source)) =
      bareResult setup.source (List.map (Placed.bareIn setup.source)) (setup.gather parts) := by
  induction parts with
  | nil => rfl
  | cons part rest ih =>
      rw [List.map_cons, gather, gather, items_bare hBlind hPaired (hSettled part (by simp)),
        ih fun other hOther => hSettled other (by simp [hOther])]
      refine mapResult_bind fun found _ => ?_
      exact mapResult_map fun others _ => List.map_append.symm

end Setup

/-! ## Outlines -/

namespace Outline

variable {source : Text}

def bareIn (source : Text) (outline : Outline) : Outline where
  blocks := outline.blocks.map (Block.bareIn source)
  pendingFrom := bareOffset source outline.pendingFrom
  embedded := outline.embedded

/-- The open branches and the pending text begin at lines that are read already. -/
structure Settled (source : Text) (bound : Nat) (outline : Outline) : Prop where
  fits : outline.Fits source bound
  isSolid : ∀ block ∈ outline.blocks, IsSolid source block.opened.start

theorem settled_initial : State.initial.outline.Settled source 0 where
  fits := fits_initial
  isSolid := by simp [State.initial, State.outline]

variable {outline : Outline} {bound : Nat} {line : DirectiveLine}

/-- Whether a block is embedded is the same without carriage returns. -/
theorem Settled.braceOpen_bare (h : outline.Settled source bound) (hPaired : Paired source)
    (hBound : bound ≤ line.span.start) (hStart : IsLineStart source line.span.start) :
    braceOpen (bare source) (bareOffset source outline.pendingFrom)
      (bareOffset source line.span.start) =
        braceOpen source outline.pendingFrom line.span.start :=
  Scan.braceOpen_bare hPaired (isBoundary_of_start h.fits.pending.2)
    (Nat.le_trans h.fits.pending.1 hBound) hStart

section Steps

variable (hSettled : outline.Settled source bound)
  (hStands : line.StandsIn source) (hBound : bound ≤ line.span.start)

include hSettled hStands hBound

theorem Settled.step {next : Outline} (hStep : Step source line outline next) :
    next.Settled source line.span.stop := by
  have hLine := hStands.isSolid_start
  have hOlder := hSettled.isSolid
  refine ⟨hSettled.fits.step hStands hBound hStep, ?_⟩
  cases hStep with
  | opensOutermost => exact List.forall_mem_cons.mpr ⟨hLine, hOlder⟩
  | opensInside => exact List.forall_mem_cons.mpr ⟨hLine, hOlder⟩
  | alternative => exact List.forall_mem_cons.mpr ⟨hLine, (List.forall_mem_cons.mp hOlder).2⟩
  | leavesOutermost => simp
  | leavesInside => exact (List.forall_mem_cons.mp hOlder).2

/-- What is looked at when a line is read is cut out between lines. -/
theorem Settled.part (hStart : IsLineStart source line.span.start) {part : Part}
    (hPart : part ∈ outline.part? source line) : part.Settled source := by
  have hFits := (hSettled.fits.part hStands hBound hPart).1
  have hLine := hStands.isSolid_start
  have hOlder := hSettled.isSolid
  unfold part? at hPart
  split at hPart
  · split at hPart
    · cases hPart
    · cases hPart
      exact ⟨hFits, .inr hStart, by simp⟩
  · cases hPart
  · cases hPart
  · rename_i block outer _ hBlocks
    cases hPart
    refine ⟨hFits, .inr hStart, ?_⟩
    rintro scope outermost hSame
    obtain ⟨rfl, _⟩ := Part.branch.inj hSame
    exact ⟨hOlder block (by simp [hBlocks]), hLine⟩

end Steps

section Brace

-- Whether a block is embedded is the same without carriage returns.
variable (hBrace : braceOpen (bare source) (bareOffset source outline.pendingFrom)
  (bareOffset source line.span.start) = braceOpen source outline.pendingFrom line.span.start)

include hBrace

/-- Reading a line does the same without carriage returns. -/
theorem read_bareIn (hStart : IsBoundary source line.span.start) :
    (outline.bareIn source).read (bare source) (line.bareIn source) =
      bareResult source (bareIn source) (outline.read source line) := by
  obtain ⟨blocks, pendingFrom, embedded⟩ := outline
  obtain ⟨directive, condition, span⟩ := line
  cases directive with
  | opens opener =>
      cases blocks with
      | nil => exact congrArg (fun brace => Except.ok (Outline.mk _ _ brace)) hBrace
      | cons block outer => rfl
  | closes closer =>
      match closer, blocks with
      | closer, [] =>
          exact congrArg (fun own => Except.error (Fault.strayCloser own closer))
            (lineOf_bare hStart)
      | .alternative, block :: outer =>
          exact congrArg (fun other => Except.ok (Outline.mk (other :: _) _ _))
            (Block.alternative_bareIn source block span)
      | .final, [block] => cases embedded <;> rfl
      | .final, block :: around :: outer => rfl

theorem part?_bareIn :
    (outline.bareIn source).part? (bare source) (line.bareIn source) =
      (outline.part? source line).map (Part.bareIn source) := by
  obtain ⟨blocks, pendingFrom, embedded⟩ := outline
  obtain ⟨directive, condition, span⟩ := line
  cases directive with
  | opens opener =>
      cases blocks with
      | nil =>
          simp only at hBrace
          simp only [part?, bareIn, DirectiveLine.bareIn, Span.bareIn, List.map_nil, hBrace]
          split
          · rfl
          · rfl
      | cons block outer => rfl
  | closes closer =>
      cases blocks with
      | nil => rfl
      | cons block outer =>
          cases outer with
          | nil => rfl
          | cons around outer => rfl

end Brace

section Lines

variable {lines : List DirectiveLine} (hPaired : Paired source)
  (hSettled : outline.Settled source bound) (hLines : Spaced source bound lines)
  (hStarts : ∀ line ∈ lines, IsLineStart source line.span.start)

include hSettled hLines hStarts

/-- Everything that is looked at is cut out between lines. -/
theorem settled_of_mem_parts (hSize : bound ≤ size source) {part : Part}
    (hPart : part ∈ outline.parts source lines) : part.Settled source := by
  induction lines generalizing outline bound with
  | nil =>
      have hFits := fits_of_mem_parts hSettled.fits hLines hSize hPart
      simp only [parts] at hPart
      split at hPart
      · obtain rfl := List.mem_singleton.mp hPart
        exact ⟨hFits, .inl rfl, by simp⟩
      · simp at hPart
  | cons line rest ih =>
      obtain ⟨hBound, hStands, hRest⟩ := hLines
      obtain ⟨hStart, hLater⟩ := List.forall_mem_cons.mp hStarts
      simp only [parts] at hPart
      split at hPart
      · rename_i next hRead
        rcases List.mem_append.mp hPart with hPart | hPart
        · exact hSettled.part hStands hBound hStart (Option.mem_toList.mp hPart)
        · exact ih (hSettled.step hStands hBound (step_of_read hRead)) hRest hLater
            hStands.isLineEnd_stop.isBoundary.le_size hPart
      · simp at hPart

include hPaired

/-- The same parts are looked at without carriage returns. -/
theorem parts_bareIn :
    (outline.bareIn source).parts (bare source) (lines.map (DirectiveLine.bareIn source)) =
      (outline.parts source lines).map (Part.bareIn source) := by
  induction lines generalizing outline bound with
  | nil =>
      obtain ⟨blocks, pendingFrom, embedded⟩ := outline
      cases blocks with
      | nil =>
          show [Part.topLevel ⟨bareOffset source pendingFrom, size (bare source)⟩] = _
          rw [← bareOffset_end]
          rfl
      | cons block outer => rfl
  | cons line rest ih =>
      obtain ⟨hBound, hStands, hRest⟩ := hLines
      obtain ⟨hStart, hLater⟩ := List.forall_mem_cons.mp hStarts
      have hBrace := hSettled.braceOpen_bare hPaired hBound hStart
      rw [List.map_cons, parts, parts, read_bareIn hBrace hStands.isBoundary_start,
        part?_bareIn hBrace]
      cases hRead : outline.read source line with
      | error fault => rfl
      | ok next =>
          have hNext := hSettled.step hStands hBound (step_of_read hRead)
          show _ ++ (next.bareIn source).parts _ _ = (_ ++ next.parts source rest).map _
          rw [ih hNext hRest hLater, List.map_append]
          cases outline.part? source line <;> rfl

/-- The same is wrong with the nesting of the lines. -/
theorem fault?_bareIn :
    (outline.bareIn source).fault? (bare source) (lines.map (DirectiveLine.bareIn source)) =
      (outline.fault? source lines).map (Fault.bareIn source) := by
  induction lines generalizing outline bound with
  | nil =>
      obtain ⟨blocks, pendingFrom, embedded⟩ := outline
      cases blocks with
      | nil => rfl
      | cons block outer =>
          exact congrArg (fun own => some (Fault.neverClosed own block.guard.bare))
            (lineOf_bare (hSettled.isSolid block List.mem_cons_self).isBoundary)
  | cons line rest ih =>
      obtain ⟨hBound, hStands, hRest⟩ := hLines
      obtain ⟨hStart, hLater⟩ := List.forall_mem_cons.mp hStarts
      have hBrace := hSettled.braceOpen_bare hPaired hBound hStart
      rw [List.map_cons, fault?, fault?, read_bareIn hBrace hStands.isBoundary_start]
      cases hRead : outline.read source line with
      | error fault => rfl
      | ok next => exact ih (hSettled.step hStands hBound (step_of_read hRead)) hRest hLater

end Lines

end Outline

/-! ## All items -/

/-- What a scan looks at is cut out between the lines of the source. -/
theorem settled_of_mem_parts {source : Text} {part : Part}
    (h : part ∈ State.initial.outline.parts source (directiveLines source)) :
    part.Settled source :=
  Outline.settled_of_mem_parts Outline.settled_initial (spaced_directiveLines source)
    (fun _ hLine => isLineStart_of_mem_directiveLines hLine) (Nat.zero_le _) h

section Collect

variable {setup : Setup} (hBlind : ∀ finder ∈ setup.finders, finder.Blind)
  (hInside : ∀ source, (setup.withSource source).FindsInside)

include hBlind hInside

/-- No part holds anything before a carriage return. -/
theorem isSolid_of_gather {found : List Placed}
    (h : setup.gather (State.initial.outline.parts setup.source (directiveLines setup.source)) =
      .ok found) : ∀ placed ∈ found, IsSolid setup.source placed.offset := by
  rw [Setup.gather_eq (hInside setup.source) h]
  intro placed hPlaced
  obtain ⟨part, hPart, hOwn⟩ := List.mem_flatMap.mp hPlaced
  exact Setup.isSolid_of_mem_itemsOf hBlind (settled_of_mem_parts hPart) hOwn

/-- A scan hands out nothing before a carriage return. -/
theorem isSolid_of_collect {items : List Placed} (h : (Cursor.start setup).collect = .ok items) :
    ∀ placed ∈ items, IsSolid setup.source placed.offset := by
  have hOwn : setup.FindsInside := hInside setup.source
  rw [collect_eq_gather hOwn] at h
  obtain ⟨found, hFound, h⟩ := bind_eq_ok_iff.mp h
  obtain ⟨_, rfl⟩ := checked_eq_ok_iff.mp h
  intro placed hPlaced
  exact isSolid_of_gather hBlind hInside hFound placed (Placed.mem_of_mem_ordered hPlaced)

/--
A scan gives the same without carriage returns, if each of them stands before a line feed:
the same items, or the same fault.
-/
theorem collect_bare (h : Paired setup.source) :
    (Cursor.start setup.bare).collect =
      bareResult setup.source (List.map (Placed.bareIn setup.source))
        (Cursor.start setup).collect := by
  have hSpaced := spaced_directiveLines setup.source
  have hStarts : ∀ line ∈ directiveLines setup.source, IsLineStart setup.source line.span.start :=
    fun _ hLine => isLineStart_of_mem_directiveLines hLine
  have hParts := Outline.parts_bareIn h Outline.settled_initial hSpaced hStarts
  have hFault := Outline.fault?_bareIn h Outline.settled_initial hSpaced hStarts
  have hInitial : State.initial.outline.bareIn setup.source = State.initial.outline :=
    congrArg (fun start => Outline.mk [] start false) (bareOffset_zero setup.source)
  rw [hInitial, ← directiveLines_bare h] at hParts hFault
  have hOwn : setup.FindsInside := hInside setup.source
  have hBare : setup.bare.FindsInside := hInside (bare setup.source)
  rw [collect_eq_gather hBare, collect_eq_gather hOwn, Setup.bare_source, hParts, hFault,
    Setup.gather_bare hBlind h fun _ hPart => settled_of_mem_parts hPart]
  refine mapResult_bind fun found hFound => ?_
  rw [Placed.ordered_bareIn (isSolid_of_gather hBlind hInside hFound)]
  cases State.initial.outline.fault? setup.source (directiveLines setup.source) with
  | none => rfl
  | some fault => rfl

end Collect

end Scan

end ValueNames
