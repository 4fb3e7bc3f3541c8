import ValueNames.Proofs.Enumeration.Finding
import ValueNames.Proofs.Scan.Parts

/-!
# Braces around blocks

Whether a block is embedded is decided by the braces of the pending text alone. In a
source without quotes this tells the brace depth at the block, as long as the pending
text begins at depth zero; and it does so behind every block that closes the braces it
opens. No chunk then ends inside a declaration: its brace is open at all directive lines
in its body.

## Main results

* `braceOpen_iff` — where a text without quotes leaves a brace open.
* `Forest.Reads.exists_chunk` — a declaration at depth zero, outside all blocks, lies in
  one chunk.
* `Forest.IsOf.enclosing_eq_nil` — outside the outermost blocks no scope is around.
-/

namespace ValueNames

open Conditional

namespace Scan

/-! ## Counting braces -/

/-- How many more braces a text opens than it closes. -/
def excess (s : Text) : Int := (s.count '\x7b' : Int) - s.count '\x7d'

/-- A text without quotes. -/
def Unquoted (s : Text) : Prop := ∀ c ∈ s, c ≠ '"' ∧ c ≠ '\''

instance (s : Text) : Decidable (Unquoted s) :=
  List.decidableBAll (fun c => c ≠ '"' ∧ c ≠ '\'') s

/-- As many braces are opened as closed, and none is closed that was not opened before. -/
structure WellBracketed (s : Text) : Prop where
  balanced : excess s = 0
  nonneg : ∀ n ≤ s.length, 0 ≤ excess (s.take n)

instance (s : Text) : Decidable (WellBracketed s) :=
  decidable_of_iff (excess s = 0 ∧ ∀ n ≤ s.length, 0 ≤ excess (s.take n))
    ⟨fun h => ⟨h.1, h.2⟩, fun h => ⟨h.1, h.2⟩⟩

/-- At an offset of a source, as many braces have been opened as closed. -/
def AtDepthZero (source : Text) (offset : Nat) : Prop :=
  ∃ front back, source = front ++ back ∧ Text.size front = offset ∧ excess front = 0

@[simp] theorem excess_append (front back : Text) :
    excess (front ++ back) = excess front + excess back := by
  simp only [excess, List.count_append, Int.natCast_add]
  omega

/-- Behind a beginning of a well-bracketed text no more braces are closed than opened. -/
theorem WellBracketed.excess_front {front back : Text} (h : WellBracketed (front ++ back)) :
    0 ≤ excess front := by
  have hFront := h.nonneg front.length (by simp)
  rwa [List.take_left] at hFront

theorem atDepthZero_zero (source : Text) : AtDepthZero source 0 := ⟨[], source, rfl, rfl, rfl⟩

theorem AtDepthZero.isBoundary {source : Text} {offset : Nat} (h : AtDepthZero source offset) :
    Text.IsBoundary source offset := by
  obtain ⟨front, back, hSource, hSize, _⟩ := h
  exact ⟨front, back, hSource, hSize⟩

/-- Without quotes, the braces of a text are all counted. -/
theorem braceDepth_eq {s : Text} (h : Unquoted s) (depth : Int) :
    braceDepth depth none s = depth + excess s := by
  induction s generalizing depth with
  | nil => simp [braceDepth, excess]
  | cons c s ih =>
      obtain ⟨hOwn, hRest⟩ := List.forall_mem_cons.mp h
      have hCons : excess (c :: s) = excess [c] + excess s := excess_append [c] s
      rw [braceDepth, if_neg (by simp [hOwn]), hCons]
      by_cases hOpens : c = '\x7b'
      · rw [if_pos hOpens, ih hRest, hOpens]
        have hOne : excess ['\x7b'] = 1 := rfl
        omega
      · rw [if_neg hOpens]
        by_cases hCloses : c = '\x7d'
        · rw [if_pos hCloses, ih hRest, hCloses]
          have hOne : excess ['\x7d'] = -1 := rfl
          omega
        · rw [if_neg hCloses, ih hRest]
          have hNone : excess [c] = 0 := by simp [excess, hOpens, hCloses]
          omega

/-- A piece of a source without quotes leaves a brace open if it opens more than it closes. -/
theorem braceOpen_iff {source front middle back : Text} (hQuotes : Unquoted source)
    (hSource : source = front ++ (middle ++ back)) :
    braceOpen source (Text.size front) (Text.size front + Text.size middle) = true ↔
      0 < excess middle := by
  have hText : Text.slice? source (Text.size front) (Text.size front + Text.size middle) =
      some middle := Text.slice?_eq_some_iff.mpr ⟨front, back, by simp [hSource], rfl, rfl⟩
  have hMiddle : Unquoted middle := by
    intro c hc
    apply hQuotes c
    rw [hSource]
    simp [hc]
  rw [braceOpen, hText, Option.any_some, leavesBraceOpen, decide_eq_true_eq,
    braceDepth_eq hMiddle, Int.zero_add]

section Depth

variable {source : Text} {start stop : Nat}

/-- Pending text from depth zero that leaves no brace open ends at depth zero. -/
theorem AtDepthZero.of_braceOpen (hQuotes : Unquoted source) (hBraces : WellBracketed source)
    (hStart : AtDepthZero source start) (hStop : Text.IsBoundary source stop)
    (hOrder : start ≤ stop) (hClosed : braceOpen source start stop = false) :
    AtDepthZero source stop := by
  obtain ⟨front, back, hSource, rfl, hZero⟩ := hStart
  obtain ⟨front', back', hSource', rfl⟩ := hStop
  obtain ⟨middle, rfl, rfl⟩ := Text.exists_append_of_size_le hSource hSource' hOrder
  rw [hSource'] at hBraces
  have hNonneg := hBraces.excess_front
  have hNone : ¬ 0 < excess middle := by
    rw [← braceOpen_iff hQuotes hSource, ← Text.size_append, hClosed]
    simp
  refine ⟨front ++ middle, back', hSource', rfl, ?_⟩
  rw [excess_append] at hNonneg ⊢
  omega

/-- A block that closes the braces it opens goes from depth zero to depth zero. -/
theorem AtDepthZero.of_wellBracketed (hStart : AtDepthZero source start) {text : Text}
    (hText : Text.slice? source start stop = some text) (h : WellBracketed text) :
    AtDepthZero source stop := by
  obtain ⟨front, back, hSource, rfl, hZero⟩ := hStart
  obtain ⟨front', back', hSource', hSize, rfl⟩ := Text.slice?_eq_some_iff.mp hText
  rw [List.append_assoc] at hSource'
  obtain ⟨rfl, _⟩ := Text.append_inj_of_size (hSource.symm.trans hSource') hSize.symm
  refine ⟨front ++ text, back', by simp [hSource'], by simp, ?_⟩
  rw [excess_append, hZero, h.balanced]
  rfl

/-- Pending text from depth zero leaves a brace open at a directive line inside a declaration. -/
theorem braceOpen_of_line_inside (hQuotes : Unquoted source) (hStart : AtDepthZero source start)
    {found : Enumeration.Declaration} {span : Span} (hReads : Enumeration.ReadsAt source found span)
    (hDepth : AtDepthZero source span.start) (hOrder : start ≤ span.start)
    {line : DirectiveLine} (hStands : line.StandsIn source)
    (hFrom : span.start ≤ line.span.start) (hTo : line.span.start < span.stop) :
    braceOpen source start line.span.start = true := by
  obtain ⟨front, middle, back, hSource, hFront, hLine, hOpened, hOpen⟩ :=
    hReads.exists_body_before_line hStands hFrom hTo
  obtain ⟨ahead, behind, hSource', rfl, hZero⟩ := hStart
  obtain ⟨front', back', hSource'', hFront', hZero'⟩ := hDepth
  obtain ⟨rfl, rfl⟩ := Text.append_inj_of_size (hSource.symm.trans hSource'')
    (hFront.trans hFront'.symm)
  obtain ⟨gap, rfl, _⟩ := Text.exists_append_of_size_le hSource' hSource (by omega)
  have hSplit : source = ahead ++ ((gap ++ middle) ++ back) := by
    rw [hSource]
    simp
  have hPlace : line.span.start = Text.size ahead + Text.size (gap ++ middle) := by
    rw [← hLine]
    simp only [Text.size_append]
    omega
  rw [hPlace, braceOpen_iff hQuotes hSplit, excess_append]
  rw [excess_append, hZero] at hZero'
  have hPositive : 0 < excess middle := by
    have hSome : 0 < middle.count '\x7b' := List.count_pos_iff.mpr hOpened
    have hNone : middle.count '\x7d' = 0 := List.count_eq_zero.mpr hOpen
    rw [excess, hNone]
    omega
  omega

end Depth

end Scan

open Scan

namespace Forest

/-! ## Outermost blocks -/

/--
The outermost blocks of a forest, each from its opening line to the end of its `#endif`
line. The first one begins at `opened`, if it was entered before.
-/
def extents (opened : Option Nat) : Forest → List Span
  | nil => []
  | branch block _ closer closed after =>
      let start := opened.getD block.opened.start
      match closer with
      | .alternative => after.extents (some start)
      | .final => ⟨start, closed.stop⟩ :: after.extents none

variable {source : Text}

theorem extents_none_branch (block : Block) (inside : Forest) (closer : Closer) (closed : Span)
    (after : Forest) :
    (branch block inside closer closed after).extents none =
      (branch block inside closer closed after).extents (some block.opened.start) := by
  cases closer with
  | alternative => rfl
  | final => rfl

/-- Only an `#endif` line ends an outermost block. -/
theorem extents_some_branch (opened : Nat) (block : Block) (inside : Forest) (closer : Closer)
    (closed : Span) (after : Forest) :
    (branch block inside closer closed after).extents (some opened) =
      (if closer = .final then [⟨opened, closed.stop⟩] else []) ++
        after.extents ((closer.next closed block).map fun _ => opened) := by
  cases closer with
  | alternative => rfl
  | final => rfl

/-- A block that was entered is the first outermost one, and ends behind all that was read. -/
theorem Reads.exists_extent {first : Option Block} {lines rest : List DirectiveLine}
    {forest : Forest} (h : Reads first lines forest rest) {bound : Nat}
    (hLines : Spaced source bound lines) (hFirst : first ≠ none) (opened : Nat) :
    ∃ extent ∈ forest.extents (some opened), extent.start = opened ∧ bound ≤ extent.stop := by
  induction h generalizing bound with
  | stop _ => exact absurd rfl hFirst
  | opens _ _ _ => exact absurd rfl hFirst
  | @closes block lines between rest line inside after closer hInside hCloses hAfter _ ihAfter =>
      obtain ⟨middle, hMiddle, ⟨hLine, hStands, hBetween⟩, _⟩ := hInside.within hLines (by simp)
      have hOwn := hStands.start_lt_stop
      cases closer with
      | alternative =>
          obtain ⟨extent, hExtent, hStart, hStop⟩ := ihAfter hBetween (by simp [Closer.next])
          exact ⟨extent, hExtent, hStart, by omega⟩
      | final => exact ⟨⟨opened, line.span.stop⟩, List.mem_cons_self, rfl, by simp only; omega⟩

/-- Every scope lies in an outermost block. -/
theorem Reads.exists_extent_of_mem_scopes {first : Option Block}
    {lines rest : List DirectiveLine} {forest : Forest} (h : Reads first lines forest rest)
    {bound : Nat} (hLines : Spaced source bound lines) (opened : Nat)
    (hFirst : ∀ block ∈ first, opened ≤ block.opened.start ∧
      block.opened.start < block.opened.stop ∧ block.opened.stop ≤ bound)
    {scope : Scope} (hScope : scope ∈ forest.scopes) :
    ∃ extent ∈ forest.extents (first.map fun _ => opened),
      extent.start ≤ scope.block.opened.start ∧ scope.closedAt < extent.stop := by
  induction h generalizing bound opened with
  | stop _ => simp [scopes] at hScope
  | @opens line lines rest forest opener hOpens hForest ih =>
      obtain ⟨_, hStands, hLater⟩ := hLines
      have hOwn := hStands.start_lt_stop
      obtain ⟨inside, closer, closed, after, rfl⟩ := hForest.eq_branch
      rw [Option.map_none, extents_none_branch]
      exact ih hLater line.span.start (by simpa using hOwn) hScope
  | @closes block lines between rest line inside after closer hInside hCloses hAfter _ ihAfter =>
      obtain ⟨hOpened, hBlock, hStop⟩ := hFirst block rfl
      obtain ⟨middle, hMiddle, ⟨hLine, hStands, hBetween⟩, hWithin⟩ :=
        hInside.within hLines (by simp)
      have hOwn := hStands.start_lt_stop
      have hInner := hWithin line.span.start hLine
      simp only [Option.elim_none] at hInner
      rw [Option.map_some, extents_some_branch]
      -- The block of this branch ends with this line or behind it.
      have hExtent : ∃ extent ∈ (if closer = .final then [⟨opened, line.span.stop⟩] else []) ++
          after.extents ((closer.next line.span block).map fun _ => opened),
          extent.start = opened ∧ line.span.stop ≤ extent.stop := by
        cases closer with
        | alternative => exact hAfter.exists_extent hBetween (by simp [Closer.next]) opened
        | final => exact ⟨_, List.mem_cons_self, rfl, Nat.le_refl _⟩
      obtain ⟨extent, hMem, hFrom, hTo⟩ := hExtent
      simp only [scopes, List.mem_cons, List.mem_append] at hScope
      rcases hScope with rfl | hScope | hScope
      · exact ⟨extent, hMem, by simp only; omega, by simp only; omega⟩
      · have hPlace := hInner.mem_scopes hScope
        exact ⟨extent, hMem, by omega, by omega⟩
      · obtain ⟨other, hOther, hPlace⟩ := ihAfter hBetween opened (by
          intro next hNext
          rw [Closer.opened_of_mem_next hNext]
          exact ⟨by omega, hOwn, Nat.le_refl _⟩) hScope
        exact ⟨other, List.mem_append_right _ hOther, hPlace⟩

/-- Outside the outermost blocks no scope is around. -/
theorem IsOf.enclosing_eq_nil {forest : Forest} (h : IsOf (directiveLines source) forest)
    {offset : Nat}
    (hOutside : ∀ extent ∈ forest.extents none, offset < extent.start ∨ extent.stop ≤ offset) :
    forest.enclosing offset = [] := by
  apply List.eq_nil_iff_forall_not_mem.mpr
  intro scope hScope
  obtain ⟨hMem, hEncloses⟩ := List.mem_filter.mp hScope
  obtain ⟨hStart, hStop⟩ := Scope.encloses_iff.mp hEncloses
  obtain ⟨extent, hExtent, hFrom, hTo⟩ :=
    Reads.exists_extent_of_mem_scopes h (spaced_directiveLines source) 0 (by simp) hMem
  have hApart := hOutside extent hExtent
  omega

/-! ## Declarations outside all blocks -/

/-- The pending text begins at depth zero, in what has been read, and not behind an offset. -/
structure PendsBefore (source : Text) (offset bound pendingFrom : Nat) : Prop where
  depth : AtDepthZero source pendingFrom
  read : pendingFrom ≤ bound
  before : pendingFrom ≤ offset

/--
Behind a closing line the pending text begins so again. It moves only behind a block that
is not embedded, which closes the braces it opens and does not hold the offset.
-/
theorem PendsBefore.behind {offset bound pendingFrom opened : Nat} {embedded : Bool}
    (h : PendsBefore source offset bound pendingFrom) {closer : Closer} {line : DirectiveLine}
    (hStands : line.StandsIn source) (hBound : bound ≤ line.span.start) (hOpened : opened ≤ bound)
    (hFree : embedded = false → AtDepthZero source opened ∧ opened ≤ offset)
    (hApart : closer = .final → offset < opened ∨ line.span.stop ≤ offset)
    (hBlock : closer = .final → AtDepthZero source opened → ∀ text,
      Text.slice? source opened line.span.stop = some text → WellBracketed text) :
    PendsBefore source offset line.span.stop
      (pendingBehind closer line.span embedded pendingFrom) := by
  have hOwn := hStands.start_lt_stop
  by_cases hMoves : closer = .final ∧ embedded = false
  · obtain ⟨hZero, hBefore⟩ := hFree hMoves.2
    have hBehind := hApart hMoves.1
    obtain ⟨text, hText⟩ := Text.exists_slice? hZero.isBoundary
      hStands.isLineEnd_stop.isBoundary (by omega)
    rw [pendingBehind, if_pos hMoves]
    exact ⟨hZero.of_wellBracketed hText (hBlock hMoves.1 hZero text hText), Nat.le_refl _,
      by omega⟩
  · have hRead := h.read
    rw [pendingBehind, if_neg hMoves]
    exact ⟨h.depth, by omega, h.before⟩

/--
A declaration at depth zero, outside all blocks, lies in one chunk. The chunks begin at
depth zero, as every block behind which one begins closes the braces it opens; and a
chunk does not end inside the declaration, whose brace is open there.
-/
theorem Reads.exists_chunk {first : Option Block} {lines rest : List DirectiveLine}
    {forest : Forest} (h : Reads first lines forest rest) (hRest : rest = []) {bound : Nat}
    (hLines : Spaced source bound lines) (hQuotes : Unquoted source)
    (hBraces : WellBracketed source) {found : Enumeration.Declaration} {span : Span}
    (hReads : Enumeration.ReadsAt source found span) (hDepth : AtDepthZero source span.start)
    (hSize : span.stop ≤ Text.size source) {pendingFrom : Nat} (opened : Nat) (embedded : Bool)
    (hPending : PendsBefore source span.start bound pendingFrom)
    (hEntered : first ≠ none → opened ≤ bound ∧
      (embedded = false → AtDepthZero source opened ∧ opened ≤ span.start))
    (hOutside : ∀ extent ∈ forest.extents (first.map fun _ => opened),
      span.start < extent.start ∨ extent.stop ≤ span.start)
    (hBlocks : ∀ extent ∈ forest.extents (first.map fun _ => opened),
      AtDepthZero source extent.start → ∀ text,
        Text.slice? source extent.start extent.stop = some text → WellBracketed text) :
    ∃ region, .topLevel region ∈ forest.parts source pendingFrom (first.map fun _ => embedded) ∧
      region.start ≤ span.start ∧ span.stop ≤ region.stop := by
  induction h generalizing bound pendingFrom opened embedded with
  | stop _ => exact ⟨_, List.mem_singleton_self _, hPending.before, hSize⟩
  | @opens line lines rest forest opener hOpens hForest ih =>
      obtain ⟨hLine, hStands, hLater⟩ := hLines
      obtain ⟨hZero, hRead, hBefore⟩ := hPending
      have hOwn := hStands.start_lt_stop
      obtain ⟨inside, closer, closed, after, rfl⟩ := hForest.eq_branch
      rw [Option.map_none, parts_none_branch]
      rw [Option.map_none, extents_none_branch] at hOutside hBlocks
      by_cases hChunk : braceOpen source pendingFrom line.span.start = false ∧
          span.start < line.span.start
      · -- The declaration begins in the chunk before the block, and ends there.
        refine ⟨⟨pendingFrom, line.span.start⟩, ?_, hBefore, ?_⟩
        · simp [hChunk.1]
        · apply Nat.le_of_not_lt
          intro hCut
          have hOpen := braceOpen_of_line_inside hQuotes hZero hReads hDepth hBefore hStands
            (Nat.le_of_lt hChunk.2) hCut
          rw [hChunk.1] at hOpen
          cases hOpen
      · have hBlock : braceOpen source pendingFrom line.span.start = false →
            AtDepthZero source line.span.start ∧ line.span.start ≤ span.start := by
          intro hClosed
          refine ⟨hZero.of_braceOpen hQuotes hBraces hStands.isBoundary_start (by omega) hClosed,
            ?_⟩
          apply Nat.le_of_not_lt
          exact fun hFirst => hChunk ⟨hClosed, hFirst⟩
        obtain ⟨region, hRegion, hHolds⟩ := ih hRest hLater _ _ ⟨hZero, by omega, hBefore⟩
          (fun _ => ⟨Nat.le_of_lt hOwn, hBlock⟩) hOutside hBlocks
        exact ⟨region, List.mem_append_right _ hRegion, hHolds⟩
  | @closes block lines between rest line inside after closer hInside hCloses hAfter _ ihAfter =>
      obtain ⟨hOpened, hFree⟩ := hEntered (by simp)
      obtain ⟨middle, hMiddle, ⟨hLine, hStands, hBetween⟩, _⟩ := hInside.within hLines (by simp)
      have hOwn := hStands.start_lt_stop
      rw [Option.map_some, extents_some_branch] at hOutside hBlocks
      -- An `#endif` line ends the block that was entered.
      have hExtent : closer = .final → (⟨opened, line.span.stop⟩ : Span) ∈
          (if closer = .final then [⟨opened, line.span.stop⟩] else []) ++
            after.extents ((closer.next line.span block).map fun _ => opened) := by
        rintro rfl
        exact List.mem_cons_self
      have hBehind := hPending.behind hStands (by omega) hOpened hFree
        (fun hFinal => hOutside _ (hExtent hFinal)) (fun hFinal => hBlocks _ (hExtent hFinal))
      obtain ⟨region, hRegion, hHolds⟩ := ihAfter hRest hBetween _ _ hBehind
        (fun _ => ⟨by omega, hFree⟩)
        (fun extent hMem => hOutside extent (List.mem_append_right _ hMem))
        (fun extent hMem => hBlocks extent (List.mem_append_right _ hMem))
      refine ⟨region, ?_, hHolds⟩
      rw [Option.map_some, parts_some_branch]
      exact List.mem_append_right _ (List.mem_cons_of_mem _ hRegion)

/-- So it does in a whole source. -/
theorem IsOf.exists_chunk {forest : Forest} (h : IsOf (directiveLines source) forest)
    (hQuotes : Unquoted source) (hBraces : WellBracketed source)
    {found : Enumeration.Declaration} {span : Span}
    (hReads : Enumeration.ReadsAt source found span) (hDepth : AtDepthZero source span.start)
    (hOutside : ∀ extent ∈ forest.extents none,
      span.start < extent.start ∨ extent.stop ≤ span.start)
    (hBlocks : ∀ extent ∈ forest.extents none, AtDepthZero source extent.start → ∀ text,
      Text.slice? source extent.start extent.stop = some text → WellBracketed text) :
    ∃ region, .topLevel region ∈ forest.parts source 0 none ∧ region.start ≤ span.start ∧
      span.stop ≤ region.stop :=
  Reads.exists_chunk h rfl (spaced_directiveLines source) hQuotes hBraces hReads hDepth
    hReads.stop_le_size 0 false ⟨atDepthZero_zero source, Nat.le_refl _, Nat.zero_le _⟩
    (fun hNone => absurd rfl hNone) hOutside hBlocks

end Forest

end ValueNames
