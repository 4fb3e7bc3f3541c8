import ValueNames.Proofs.Conditional.Truth
import ValueNames.Proofs.Scan.Nesting

/-!
# How the parts of a source stand to one another

Of two parts the one that is looked at first stands before the other or inside
it. Parts thus never straddle each other, and an inner part comes first. A part
ends where a directive line begins, or with the source.

## Main results

* `Forest.IsOf.pairwise_parts` — every part stands before a later one or inside it.
* `Forest.IsOf.eq_or_inside` — parts that share an offset are nested.
* `Forest.IsOf.covering_eq_append` — the scopes around a span of a part are those around
  the part, and then scopes inside it.
* `Forest.IsOf.isLineStart_stop` — a part ends with a line of the source.
-/

namespace ValueNames

open Scan Conditional

/-- A span lies inside another one and begins behind its start. -/
def Span.Inside (inner outer : Span) : Prop :=
  outer.start < inner.start ∧ inner.stop ≤ outer.stop

instance (inner outer : Span) : Decidable (inner.Inside outer) :=
  inferInstanceAs (Decidable (_ ∧ _))

/-- A part stands before another one or inside it. -/
def Scan.Part.Precedes (earlier later : Part) : Prop :=
  earlier.region.stop ≤ later.region.start ∨ earlier.region.Inside later.region

namespace Forest

variable {source : Text}

/-! ## Branches -/

/-- The branches of a forest are those of its scopes. -/
theorem exists_scope_of_mem_branches {forest : Forest} {outermost : Bool} {part : Part}
    (h : part ∈ forest.branches outermost) :
    ∃ scope ∈ forest.scopes, part.region = scope.region := by
  induction forest generalizing outermost with
  | nil => simp [branches] at h
  | branch block inside closer closed after ihInside ihAfter =>
      simp only [branches, List.mem_append, List.mem_cons] at h
      rcases h with hPart | rfl | hPart
      · obtain ⟨scope, hScope, hRegion⟩ := ihInside hPart
        exact ⟨scope, by simp [scopes, hScope], hRegion⟩
      · exact ⟨⟨block, closed.start⟩, by simp [scopes], rfl⟩
      · obtain ⟨scope, hScope, hRegion⟩ := ihAfter hPart
        exact ⟨scope, by simp [scopes, hScope], hRegion⟩

/-- The branches of a forest stand where the forest does. -/
theorem Within.mem_branches {low high : Nat} {forest : Forest} (h : forest.Within low high)
    {outermost : Bool} {part : Part} (hPart : part ∈ forest.branches outermost) :
    low < part.region.start ∧ part.region.stop < high := by
  obtain ⟨scope, hScope, hRegion⟩ := exists_scope_of_mem_branches hPart
  have hPlace := h.mem_scopes hScope
  rw [hRegion]
  simp only [Scope.region] at hPlace ⊢
  omega

theorem Within.pairwise_branches {low high : Nat} {forest : Forest}
    (h : forest.Within low high) (outermost : Bool) :
    (forest.branches outermost).Pairwise Part.Precedes := by
  induction forest generalizing low high outermost with
  | nil => exact List.Pairwise.nil
  | branch block inside closer closed after ihInside ihAfter =>
      obtain ⟨_, hOpened, hRegion, _, _, hInside, hAfter⟩ := h
      have hBehind : ∀ part : Part, part.region.stop ≤ closed.start →
          ∀ later ∈ after.branches outermost, part.Precedes later := by
        intro part hStop later hLater
        have hPlace := hAfter.mem_branches hLater
        exact .inl (by omega)
      refine List.pairwise_append.mpr ⟨ihInside hInside false,
        List.pairwise_cons.mpr ⟨hBehind _ (Nat.le_refl _), ihAfter hAfter outermost⟩, ?_⟩
      intro part hPart later hLater
      have hPlace := hInside.mem_branches hPart
      rcases List.mem_cons.mp hLater with rfl | hLater
      · exact .inr ⟨hPlace.1, Nat.le_of_lt hPlace.2⟩
      · exact hBehind part (by omega) later hLater

/-! ## Parts -/

/-- From the outermost level, the first block is entered behind the chunk before it. -/
theorem parts_none_branch (pendingFrom : Nat) (block : Block) (inside : Forest) (closer : Closer)
    (closed : Span) (after : Forest) :
    (branch block inside closer closed after).parts source pendingFrom none =
      (if braceOpen source pendingFrom block.opened.start = true then []
        else [.topLevel ⟨pendingFrom, block.opened.start⟩]) ++
        (branch block inside closer closed after).parts source pendingFrom
          (some (braceOpen source pendingFrom block.opened.start)) := by
  cases hBrace : braceOpen source pendingFrom block.opened.start with
  | false => simp [parts, hBrace]
  | true => simp [parts, hBrace]

/-- Where the pending text begins behind a closing line. -/
def pendingBehind (closer : Closer) (closed : Span) (embedded : Bool) (pendingFrom : Nat) : Nat :=
  if closer = .final ∧ embedded = false then closed.stop else pendingFrom

/-- Inside an entered block come its branch and then the rest. -/
theorem parts_some_branch (pendingFrom : Nat) (embedded : Bool) (block : Block) (inside : Forest)
    (closer : Closer) (closed : Span) (after : Forest) :
    (branch block inside closer closed after).parts source pendingFrom (some embedded) =
      inside.branches false ++ .branch ⟨block, closed.start⟩ true ::
        after.parts source (pendingBehind closer closed embedded pendingFrom)
          ((closer.next closed block).map fun _ => embedded) := by
  cases closer with
  | alternative => simp [parts, pendingBehind, Closer.next]
  | final =>
      cases embedded with
      | false => simp [parts, pendingBehind, Closer.next]
      | true => simp [parts, pendingBehind, Closer.next]

/-- Where the first of some lines can begin, or the branch that is open before them. -/
def lowest (first : Option Block) (bound : Nat) : Nat := first.elim bound (·.opened.start)

/-- Behind a closing line the next branch is opened by that line. -/
theorem opened_of_mem_next {closer : Closer} {closed : Span} {block : Block}
    (hClosed : closed.start < closed.stop) :
    ∀ next ∈ closer.next closed block,
      next.opened.start < next.opened.stop ∧ next.opened.stop ≤ closed.stop := by
  intro next hNext
  rw [Closer.opened_of_mem_next hNext]
  exact ⟨hClosed, Nat.le_refl _⟩

theorem start_le_lowest_next {closed : Span} (closer : Closer) (block : Block)
    (hClosed : closed.start < closed.stop) :
    closed.start ≤ lowest (closer.next closed block) closed.stop := by
  cases closer with
  | alternative => exact Nat.le_refl _
  | final => exact Nat.le_of_lt hClosed

/-- A block that is not embedded leaves no pending text from before its end. -/
theorem start_le_pendingBehind {closer : Closer} {closed : Span} {block : Block} {embedded : Bool}
    (pendingFrom : Nat) (hClosed : closed.start < closed.stop)
    (h : closer.next closed block = none ∨ embedded = true) :
    embedded = true ∧ pendingBehind closer closed embedded pendingFrom = pendingFrom ∨
      closed.start ≤ pendingBehind closer closed embedded pendingFrom ∧
        pendingBehind closer closed embedded pendingFrom ≤
          lowest (closer.next closed block) closed.stop := by
  cases embedded with
  | true => exact .inl ⟨rfl, by simp [pendingBehind]⟩
  | false =>
      cases closer with
      | alternative => simp [Closer.next] at h
      | final =>
          right
          simp only [pendingBehind, Closer.next, lowest, and_self, if_true, Option.elim_none]
          omega

/--
Where the parts of a forest stand: behind the lines read before, or at the start
of the pending text, if this is still to be looked at, and then beyond those lines.
-/
theorem Reads.mem_parts {first : Option Block} {lines rest : List DirectiveLine} {forest : Forest}
    (h : Reads first lines forest rest) (hRest : rest = []) {bound : Nat}
    (hLines : Spaced source bound lines) (hBound : bound ≤ Text.size source)
    (hFirst : ∀ block ∈ first, block.opened.start < block.opened.stop ∧ block.opened.stop ≤ bound)
    {pendingFrom : Nat} {embedded : Bool} {part : Part}
    (hPart : part ∈ forest.parts source pendingFrom (first.map fun _ => embedded)) :
    lowest first bound ≤ part.region.start ∨
      (first = none ∨ embedded = true) ∧ part.region.start = pendingFrom ∧
        lowest first bound ≤ part.region.stop := by
  induction h generalizing bound pendingFrom embedded with
  | stop _ =>
      obtain rfl := List.mem_singleton.mp hPart
      exact .inr ⟨.inl rfl, rfl, hBound⟩
  | @opens line lines rest forest opener hOpens hForest ih =>
      obtain ⟨hLine, hStands, hLater⟩ := hLines
      have hOwn := hStands.start_lt_stop
      have hSize := hStands.isLineEnd_stop.isBoundary.le_size
      obtain ⟨inside, closer, closed, after, rfl⟩ := hForest.eq_branch
      rw [Option.map_none, parts_none_branch] at hPart
      rcases List.mem_append.mp hPart with hChunk | hPart
      · split at hChunk
        · cases hChunk
        · obtain rfl := List.mem_singleton.mp hChunk
          exact .inr ⟨.inl rfl, rfl, hLine⟩
      · have hPlace := ih hRest hLater hSize (by simpa using hOwn) hPart
        simp only [lowest, Option.elim_some, Option.elim_none] at hPlace ⊢
        rcases hPlace with hBehind | ⟨_, hPending, hStop⟩
        · exact .inl (by omega)
        · exact .inr ⟨.inl trivial, hPending, by omega⟩
  | @closes block lines between rest line inside after closer hInside hCloses hAfter _ ihAfter =>
      obtain ⟨hOpened, hStop⟩ := hFirst block rfl
      obtain ⟨middle, hMiddle, ⟨hLine, hStands, hBetween⟩, hWithin⟩ :=
        hInside.within hLines (by simp)
      have hOwn := hStands.start_lt_stop
      have hSize := hStands.isLineEnd_stop.isBoundary.le_size
      have hInner := hWithin line.span.start hLine
      simp only [lowest, Option.elim_some, Option.elim_none] at hInner ⊢
      rw [Option.map_some, parts_some_branch] at hPart
      rcases List.mem_append.mp hPart with hPart | hPart
      · have hPlace := hInner.mem_branches hPart
        exact .inl (by omega)
      · rcases List.mem_cons.mp hPart with rfl | hPart
        · exact .inl (Nat.le_of_lt hOpened)
        · have hLow := start_le_lowest_next closer block hOwn
          have hPlace := ihAfter hRest hBetween hSize (opened_of_mem_next hOwn) hPart
          rcases hPlace with hBehind | ⟨hPending, hStart, hBeyond⟩
          · exact .inl (by omega)
          · rcases start_le_pendingBehind pendingFrom hOwn hPending with
              ⟨hEmbedded, hSame⟩ | ⟨hBehind, _⟩
            · exact .inr ⟨.inr hEmbedded, by rw [hStart, hSame], by omega⟩
            · exact .inl (by omega)

/-- Of two parts the earlier stands before the later or inside it. -/
theorem Reads.pairwise_parts {first : Option Block} {lines rest : List DirectiveLine}
    {forest : Forest} (h : Reads first lines forest rest) (hRest : rest = []) {bound : Nat}
    (hLines : Spaced source bound lines)
    (hFirst : ∀ block ∈ first, block.opened.start < block.opened.stop ∧ block.opened.stop ≤ bound)
    (pendingFrom : Nat) (embedded : Bool)
    (hPending : first = none ∨ embedded = true → pendingFrom ≤ lowest first bound) :
    (forest.parts source pendingFrom (first.map fun _ => embedded)).Pairwise Part.Precedes := by
  induction h generalizing bound pendingFrom embedded with
  | stop _ => exact List.pairwise_singleton _ _
  | @opens line lines rest forest opener hOpens hForest ih =>
      obtain ⟨hLine, hStands, hLater⟩ := hLines
      have hOwn := hStands.start_lt_stop
      have hSize := hStands.isLineEnd_stop.isBoundary.le_size
      have hBefore : pendingFrom ≤ bound := hPending (.inl rfl)
      obtain ⟨inside, closer, closed, after, rfl⟩ := hForest.eq_branch
      have hEntered := ih hRest hLater (by simpa using hOwn) pendingFrom
        (braceOpen source pendingFrom line.span.start) (fun _ => Nat.le_trans hBefore hLine)
      rw [Option.map_none, parts_none_branch]
      split
      · exact hEntered
      · rename_i hBrace
        refine List.pairwise_cons.mpr ⟨?_, hEntered⟩
        intro part hPart
        have hPlace := hForest.mem_parts hRest hLater hSize (by simpa using hOwn) hPart
        rcases hPlace with hBehind | ⟨hEmbedded, _⟩
        · exact .inl hBehind
        · simp [hBrace] at hEmbedded
  | @closes block lines between rest line inside after closer hInside hCloses hAfter _ ihAfter =>
      obtain ⟨hOpened, hStop⟩ := hFirst block rfl
      obtain ⟨middle, hMiddle, ⟨hLine, hStands, hBetween⟩, hWithin⟩ :=
        hInside.within hLines (by simp)
      have hOwn := hStands.start_lt_stop
      have hSize := hStands.isLineEnd_stop.isBoundary.le_size
      have hInner := hWithin line.span.start hLine
      simp only [Option.elim_none] at hInner
      have hLow := start_le_lowest_next closer block hOwn
      -- What stands in the block precedes all that is looked at behind it.
      have hBlock : ∀ part : Part, block.opened.start < part.region.start →
          part.region.stop ≤ line.span.start →
          ∀ later ∈ after.parts source (pendingBehind closer line.span embedded pendingFrom)
            ((closer.next line.span block).map fun _ => embedded), part.Precedes later := by
        intro part hStart hEnd later hLater
        have hPlace := hAfter.mem_parts hRest hBetween hSize (opened_of_mem_next hOwn) hLater
        rcases hPlace with hBehind | ⟨hCase, hFrom, hBeyond⟩
        · exact .inl (by omega)
        · rcases start_le_pendingBehind pendingFrom hOwn hCase with
            ⟨hEmbedded, hSame⟩ | ⟨hBehind, _⟩
          · have hAhead : pendingFrom ≤ block.opened.start := hPending (.inr hEmbedded)
            exact .inr ⟨by omega, by omega⟩
          · exact .inl (by omega)
      have hLater := ihAfter hRest hBetween (opened_of_mem_next hOwn)
        (pendingBehind closer line.span embedded pendingFrom) embedded (by
          intro hCase
          rcases start_le_pendingBehind pendingFrom hOwn hCase with
            ⟨hEmbedded, hSame⟩ | ⟨_, hBehind⟩
          · have hAhead : pendingFrom ≤ block.opened.start := hPending (.inr hEmbedded)
            omega
          · exact hBehind)
      rw [Option.map_some, parts_some_branch]
      refine List.pairwise_append.mpr ⟨hInner.pairwise_branches false,
        List.pairwise_cons.mpr ⟨hBlock _ hOpened (Nat.le_refl _), hLater⟩, ?_⟩
      intro part hPart later hLast
      have hPlace := hInner.mem_branches hPart
      rcases List.mem_cons.mp hLast with rfl | hLast
      · refine .inr ⟨?_, Nat.le_of_lt hPlace.2⟩
        show block.opened.stop < part.region.start
        omega
      · exact hBlock part (by omega) (Nat.le_of_lt hPlace.2) later hLast

/-- Of two parts of a source the earlier stands before the later or inside it. -/
theorem IsOf.pairwise_parts {forest : Forest} (h : IsOf (directiveLines source) forest) :
    (forest.parts source 0 none).Pairwise Part.Precedes :=
  Reads.pairwise_parts h rfl (spaced_directiveLines source) (by simp) 0 false
    (fun _ => Nat.zero_le _)

/-- Of two parts that hold an offset the earlier stands inside the later. -/
theorem IsOf.inside_of_earlier {forest : Forest} (h : IsOf (directiveLines source) forest)
    {earlier later : List Part} {part inner : Part}
    (hParts : forest.parts source 0 none = earlier ++ part :: later) (hInner : inner ∈ earlier)
    {offset : Nat} (hStart : part.region.start ≤ offset) (hStop : offset < inner.region.stop) :
    inner.region.Inside part.region := by
  have hPairs := h.pairwise_parts
  rw [hParts] at hPairs
  rcases (List.pairwise_append.mp hPairs).2.2 inner hInner part (by simp) with hApart | hInside
  · omega
  · exact hInside

/-- Two parts that hold an offset are the same, or one of them stands inside the other. -/
theorem IsOf.eq_or_inside {forest : Forest} (h : IsOf (directiveLines source) forest)
    {part other : Part} (hPart : part ∈ forest.parts source 0 none)
    (hOther : other ∈ forest.parts source 0 none) {offset : Nat}
    (hHolds : part.region.start ≤ offset ∧ offset < part.region.stop)
    (hOtherHolds : other.region.start ≤ offset ∧ offset < other.region.stop) :
    part = other ∨ part.region.Inside other.region ∨ other.region.Inside part.region := by
  obtain ⟨earlier, later, hParts⟩ := List.append_of_mem hPart
  rw [hParts] at hOther
  rcases List.mem_append.mp hOther with hEarlier | hLater
  · exact .inr (.inr (h.inside_of_earlier hParts hEarlier hHolds.1 hOtherHolds.2))
  · rcases List.mem_cons.mp hLater with rfl | hLater
    · exact .inl rfl
    · obtain ⟨ahead, behind, rfl⟩ := List.append_of_mem hLater
      have hParts' : forest.parts source 0 none =
          (earlier ++ part :: ahead) ++ other :: behind := by
        rw [hParts]
        simp
      exact .inr (.inl (h.inside_of_earlier hParts' (by simp) hOtherHolds.1 hHolds.2))

/-! ## Scopes around a part -/

/-- What holds of the outer ones of some scopes tells where they are cut. -/
theorem filter_append_filter_not {keep : Scope → Bool} {scopes : List Scope}
    (h : scopes.Pairwise fun outer inner => keep inner = true → keep outer = true) :
    scopes.filter keep ++ scopes.filter (!keep ·) = scopes := by
  induction scopes with
  | nil => rfl
  | cons scope rest ih =>
      obtain ⟨hInner, hRest⟩ := List.pairwise_cons.mp h
      cases hKeep : keep scope with
      | true => simpa [hKeep] using ih hRest
      | false =>
          have hNone : rest.filter keep = [] := by
            apply List.filter_eq_nil_iff.mpr
            intro inner hMem hOwn
            rw [hInner inner hMem hOwn] at hKeep
            cases hKeep
          have hTail := ih hRest
          rw [hNone, List.nil_append] at hTail
          simp [hKeep, hNone, hTail]

/-- The scopes that hold a span are nested, each inside the one before it. -/
theorem Within.pairwise_covering {low high : Nat} {forest : Forest} (h : forest.Within low high)
    {span : Span} (hSpan : span.start < span.stop) :
    (forest.covering span).Pairwise fun outer inner =>
      outer.region.start ≤ inner.block.opened.start ∧ inner.closedAt < outer.closedAt := by
  have hEnclosing : forest.covering span =
      (forest.enclosing span.start).filter (·.covers span) := by
    rw [enclosing, List.filter_filter]
    apply List.filter_congr
    intro scope hScope
    have hPlace := h.mem_scopes hScope
    rw [Bool.eq_iff_iff, Bool.and_eq_true, Scope.encloses_iff, Scope.covers_iff]
    simp only [Scope.region] at hPlace ⊢
    omega
  rw [hEnclosing]
  exact (h.pairwise_enclosing span.start).filter _

/--
The scopes that hold a span of a part are those that hold the part, outermost
first, and then scopes inside the part.
-/
theorem IsOf.covering_eq_append {forest : Forest} (h : IsOf (directiveLines source) forest)
    {part : Part} (hPart : part ∈ forest.parts source 0 none) {span : Span}
    (hSpan : span.start < span.stop) (hStart : part.region.start ≤ span.start)
    (hStop : span.stop ≤ part.region.stop) :
    ∃ inner, forest.covering span = forest.covering part.region ++ inner ∧
      ∀ scope ∈ inner, scope.region.Inside part.region := by
  obtain ⟨high, hWithin⟩ := h.within
  have hFilter : forest.covering part.region =
      (forest.covering span).filter (·.covers part.region) := by
    rw [covering, covering, List.filter_filter]
    apply List.filter_congr
    intro scope _
    rw [Bool.eq_iff_iff, Bool.and_eq_true, Scope.covers_iff, Scope.covers_iff]
    omega
  have hNested : (forest.covering span).Pairwise fun outer inner =>
      inner.covers part.region = true → outer.covers part.region = true := by
    refine List.Pairwise.imp_of_mem ?_ (hWithin.pairwise_covering hSpan)
    intro outer inner _ hInner hInside hCovers
    have hPlace := hWithin.mem_scopes (List.mem_filter.mp hInner).1
    rw [Scope.covers_iff] at hCovers ⊢
    simp only [Scope.region] at hPlace hCovers hInside ⊢
    omega
  refine ⟨(forest.covering span).filter (!·.covers part.region), ?_, ?_⟩
  · rw [hFilter, filter_append_filter_not hNested]
  · intro scope hScope
    obtain ⟨hHolds, hNot⟩ := List.mem_filter.mp hScope
    obtain ⟨hMem, hCovers⟩ := List.mem_filter.mp hHolds
    obtain ⟨level, hBranch⟩ := exists_mem_parts hMem source 0 none
    obtain ⟨hFrom, hTo⟩ := Scope.covers_iff.mp hCovers
    have hOther : ¬ (scope.region.start ≤ part.region.start ∧
        part.region.stop ≤ scope.region.stop) := by
      rw [← Scope.covers_iff]
      simpa using hNot
    have hOwn : part.region.start ≤ span.start ∧ span.start < part.region.stop :=
      ⟨hStart, by omega⟩
    have hBranchOwn : scope.region.start ≤ span.start ∧ span.start < scope.region.stop :=
      ⟨hFrom, by omega⟩
    rcases h.eq_or_inside hPart hBranch hOwn hBranchOwn with rfl | hInside | hInside
    · exact absurd ⟨Nat.le_refl _, Nat.le_refl _⟩ hOther
    · exact absurd ⟨Nat.le_of_lt hInside.1, hInside.2⟩ hOther
    · exact hInside

/-! ## Text outside all blocks -/

theorem topLevel_not_mem_branches (forest : Forest) (outermost : Bool) (region : Span) :
    Part.topLevel region ∉ forest.branches outermost := by
  induction forest generalizing outermost with
  | nil => simp [branches]
  | branch block inside closer closed after ihInside ihAfter =>
      simp [branches, ihInside, ihAfter]

/-- Text outside all blocks does not begin inside a scope. -/
theorem Reads.topLevel_apart {first : Option Block} {lines rest : List DirectiveLine}
    {forest : Forest} (h : Reads first lines forest rest) (hRest : rest = []) {bound : Nat}
    (hLines : Spaced source bound lines)
    (hFirst : ∀ block ∈ first, block.opened.start < block.opened.stop ∧ block.opened.stop ≤ bound)
    (pendingFrom : Nat) (embedded : Bool)
    (hPending : first = none ∨ embedded = true → pendingFrom ≤ lowest first bound) {region : Span}
    (hPart : .topLevel region ∈ forest.parts source pendingFrom (first.map fun _ => embedded))
    {scope : Scope} (hScope : scope ∈ forest.scopes) :
    region.start ≤ scope.block.opened.start ∨ scope.closedAt ≤ region.start := by
  induction h generalizing bound pendingFrom embedded with
  | stop _ => simp [scopes] at hScope
  | @opens line lines rest forest opener hOpens hForest ih =>
      obtain ⟨hLine, hStands, hLater⟩ := hLines
      have hOwn := hStands.start_lt_stop
      have hBefore : pendingFrom ≤ bound := hPending (.inl rfl)
      obtain ⟨inside, closer, closed, after, rfl⟩ := hForest.eq_branch
      rw [Option.map_none, parts_none_branch] at hPart
      rcases List.mem_append.mp hPart with hChunk | hPart
      · split at hChunk
        · cases hChunk
        · cases List.mem_singleton.mp hChunk
          obtain ⟨behind, _, _, hWithin⟩ := hForest.within hLater (by simpa using hOwn)
          have hPlace := (hWithin behind (Nat.le_refl _)).mem_scopes hScope
          simp only [Option.elim_some] at hPlace
          refine .inl ?_
          show pendingFrom ≤ scope.block.opened.start
          omega
      · refine ih hRest hLater (by simpa using hOwn) pendingFrom
          (braceOpen source pendingFrom line.span.start) (fun _ => ?_) hPart hScope
        exact Nat.le_trans hBefore hLine
  | @closes block lines between rest line inside after closer hInside hCloses hAfter _ ihAfter =>
      obtain ⟨hOpened, hStop⟩ := hFirst block rfl
      obtain ⟨middle, hMiddle, ⟨hLine, hStands, hBetween⟩, hWithin⟩ :=
        hInside.within hLines (by simp)
      have hOwn := hStands.start_lt_stop
      have hSize := hStands.isLineEnd_stop.isBoundary.le_size
      have hInner := hWithin line.span.start hLine
      simp only [Option.elim_none] at hInner
      have hLow := start_le_lowest_next closer block hOwn
      rw [Option.map_some, parts_some_branch] at hPart
      rcases List.mem_append.mp hPart with hBranch | hPart
      · exact absurd hBranch (topLevel_not_mem_branches _ _ _)
      have hPart := (List.mem_cons.mp hPart).resolve_left (by simp)
      -- The text begins behind the block, or before it if the block is embedded.
      have hPlace : region.start ≤ block.opened.start ∨ line.span.start ≤ region.start := by
        rcases hAfter.mem_parts hRest hBetween hSize (opened_of_mem_next hOwn) hPart with
          hBehind | ⟨hCase, hFrom, _⟩
        · exact .inr (Nat.le_trans hLow hBehind)
        · have hFrom : region.start = pendingBehind closer line.span embedded pendingFrom := hFrom
          rcases start_le_pendingBehind pendingFrom hOwn hCase with
            ⟨hEmbedded, hSame⟩ | ⟨hBehind, _⟩
          · have hAhead : pendingFrom ≤ block.opened.start := hPending (.inr hEmbedded)
            exact .inl (by omega)
          · exact .inr (by omega)
      simp only [scopes, List.mem_cons, List.mem_append] at hScope
      rcases hScope with rfl | hScope | hScope
      · exact hPlace
      · have hBetween := hInner.mem_scopes hScope
        exact hPlace.imp (by omega) (by omega)
      · refine ihAfter hRest hBetween (opened_of_mem_next hOwn)
          (pendingBehind closer line.span embedded pendingFrom) embedded (fun hCase => ?_) hPart hScope
        rcases start_le_pendingBehind pendingFrom hOwn hCase with
          ⟨hEmbedded, hSame⟩ | ⟨_, hBehind⟩
        · have hAhead : pendingFrom ≤ block.opened.start := hPending (.inr hEmbedded)
          omega
        · exact hBehind

theorem mem_scopes_of_mem_branches {forest : Forest} {outermost level : Bool} {scope : Scope}
    (h : .branch scope level ∈ forest.branches outermost) : scope ∈ forest.scopes := by
  induction forest generalizing outermost with
  | nil => simp [branches] at h
  | branch block inside closer closed after ihInside ihAfter =>
      simp only [branches, List.mem_append, List.mem_cons, Part.branch.injEq] at h
      rcases h with hScope | ⟨rfl, _⟩ | hScope
      · simp [scopes, ihInside hScope]
      · simp [scopes]
      · simp [scopes, ihAfter hScope]

/-- The branches among the parts of a source are those of its scopes. -/
theorem mem_scopes_of_mem_parts {forest : Forest} {pendingFrom : Nat} {within : Option Bool}
    {scope : Scope} {level : Bool}
    (h : .branch scope level ∈ forest.parts source pendingFrom within) :
    scope ∈ forest.scopes := by
  induction forest generalizing pendingFrom within with
  | nil => simp [parts] at h
  | branch block inside closer closed after _ ihAfter =>
      simp only [parts, List.mem_append, List.mem_cons, Part.branch.injEq] at h
      rcases h with (hChunk | hInside) | ⟨rfl, _⟩ | hAfter
      · split at hChunk
        · cases List.mem_singleton.mp hChunk
        · cases hChunk
      · simp [scopes, mem_scopes_of_mem_branches hInside]
      · simp [scopes]
      · cases closer with
        | alternative => simp [scopes, ihAfter hAfter]
        | final => simp [scopes, ihAfter hAfter]

/-- A branch that shares an offset with text outside all blocks stands inside that text. -/
theorem IsOf.branch_inside_topLevel {forest : Forest} (h : IsOf (directiveLines source) forest)
    {region : Span} (hTop : .topLevel region ∈ forest.parts source 0 none) {scope : Scope}
    {level : Bool} (hBranch : .branch scope level ∈ forest.parts source 0 none) {offset : Nat}
    (hTopHolds : region.start ≤ offset ∧ offset < region.stop)
    (hBranchHolds : scope.region.start ≤ offset ∧ offset < scope.region.stop) :
    scope.region.Inside region := by
  obtain ⟨high, hWithin⟩ := h.within
  have hScope := mem_scopes_of_mem_parts hBranch
  have hPlace := hWithin.mem_scopes hScope
  have hApart := Reads.topLevel_apart h rfl (spaced_directiveLines source) (by simp) 0 false
    (fun _ => Nat.zero_le _) hTop hScope
  have hStop : scope.region.stop = scope.closedAt := rfl
  rcases h.eq_or_inside hTop hBranch hTopHolds hBranchHolds with hSame | hInside | hInside
  · cases hSame
  · obtain ⟨hBehind, _⟩ := hInside
    have hBehind : scope.region.start < region.start := hBehind
    omega
  · exact hInside

/-! ## Ends of parts -/

/-- A part ends with the source, or where a line of a scope begins. -/
theorem stop_of_mem_parts {forest : Forest} {pendingFrom : Nat} {within : Option Bool}
    {part : Part} (h : part ∈ forest.parts source pendingFrom within) :
    part.region.stop = Text.size source ∨
      ∃ scope ∈ forest.scopes, part.region.stop = scope.block.opened.start ∨
        part.region.stop = scope.closedAt := by
  induction forest generalizing pendingFrom within with
  | nil =>
      obtain rfl := List.mem_singleton.mp h
      exact .inl rfl
  | branch block inside closer closed after _ ihAfter =>
      simp only [parts, List.mem_append, List.mem_cons] at h
      rcases h with (hChunk | hInside) | rfl | hAfter
      · split at hChunk
        · obtain rfl := List.mem_singleton.mp hChunk
          exact .inr ⟨⟨block, closed.start⟩, by simp [scopes], .inl rfl⟩
        · cases hChunk
      · obtain ⟨scope, hScope, hRegion⟩ := exists_scope_of_mem_branches hInside
        exact .inr ⟨scope, by simp [scopes, hScope], .inr (by rw [hRegion]; rfl)⟩
      · exact .inr ⟨⟨block, closed.start⟩, by simp [scopes], .inr rfl⟩
      · have hRest : part.region.stop = Text.size source ∨
            ∃ scope ∈ after.scopes, part.region.stop = scope.block.opened.start ∨
              part.region.stop = scope.closedAt := by
          cases closer with
          | alternative => exact ihAfter hAfter
          | final => exact ihAfter hAfter
        rcases hRest with hEnd | ⟨scope, hScope, hStop⟩
        · exact .inl hEnd
        · exact .inr ⟨scope, by simp [scopes, hScope], hStop⟩

/-- A part ends with a line of the source. -/
theorem IsOf.isLineStart_stop {forest : Forest} (h : IsOf (directiveLines source) forest)
    {part : Part} (hPart : part ∈ forest.parts source 0 none) :
    part.region.stop = Text.size source ∨ Text.IsLineStart source part.region.stop := by
  rcases stop_of_mem_parts hPart with hEnd | ⟨scope, hScope, hStop⟩
  · exact .inl hEnd
  · right
    obtain ⟨⟨opening, hOpening, hOpened⟩, closing, hClosing, hClosed⟩ :=
      h.lines_of_mem_scopes (by simp) (List.Subset.refl _) hScope
    rcases hStop with hStop | hStop
    · rw [hStop, ← hOpened]
      exact isLineStart_of_mem_directiveLines hOpening
    · rw [hStop, ← hClosed]
      exact isLineStart_of_mem_directiveLines hClosing

end Forest

end ValueNames
