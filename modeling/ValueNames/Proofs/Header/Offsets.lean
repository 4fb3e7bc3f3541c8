import ValueNames.Proofs.Header.Outermost

/-!
# The offsets of the items

The items of a header have different offsets, with one exception. An `#else` ends one
branch and begins the next, so that the closing line of the one branch and the opening
line of the other stand at the same place.

## Main results

* `Reads.pairwise_guardLines` — of two guard lines of a forest, the earlier one stands
  before the later one unless they meet at an `#else`.
* `pairwise_handsOut` — so do any two items that are handed out.
* `offsets_of_ofText` — the offsets of a header increase, and strictly so except at `#else`.
-/

namespace ValueNames

open Scan Conditional Placed

/-! ## Lines that meet -/

/--
`first` closes a branch and `second` opens the next branch of the block, which an
`#else` begins where the two meet.
-/
def Forest.MeetAtElse (lines : List DirectiveLine) (forest : Forest) (first second : Placed) :
    Prop :=
  ∃ scope ∈ forest.scopes, ∃ next ∈ forest.scopes, ∃ line ∈ lines,
    line.directive = .closes .alternative ∧ scope.closedAt = line.span.start ∧
      next.block = scope.block.alternative line.span ∧
      first = scope.closingLine ∧ second = next.openingLine

namespace Forest

variable {all : List DirectiveLine} {first second : Placed}

theorem MeetAtElse.mono {forest larger : Forest} (h : forest.MeetAtElse all first second)
    (hScopes : forest.scopes ⊆ larger.scopes) : larger.MeetAtElse all first second := by
  obtain ⟨scope, hScope, next, hNext, hMeet⟩ := h
  exact ⟨scope, hScopes hScope, next, hScopes hNext, hMeet⟩

/-- Lines that meet are guard lines. -/
theorem MeetAtElse.isGuard {forest : Forest} (h : forest.MeetAtElse all first second) :
    first.item.isEntity = false ∧ second.item.isEntity = false := by
  obtain ⟨_, _, _, _, _, _, _, _, _, rfl, rfl⟩ := h
  exact ⟨rfl, rfl⟩

/-- The order of the guard lines of a forest: one behind the other, or meeting at an `#else`. -/
def Follows (lines : List DirectiveLine) (forest : Forest) (first second : Placed) : Prop :=
  first.offset < second.offset ∨
    first.offset = second.offset ∧ forest.MeetAtElse lines first second

theorem Follows.mono {forest larger : Forest} (h : forest.Follows all first second)
    (hScopes : forest.scopes ⊆ larger.scopes) : larger.Follows all first second :=
  h.imp id (And.imp id fun hMeet => hMeet.mono hScopes)

theorem Follows.le {forest : Forest} (h : forest.Follows all first second) :
    first.offset ≤ second.offset := by
  rcases h with hLess | ⟨hSame, _⟩
  · exact Nat.le_of_lt hLess
  · exact Nat.le_of_eq hSame

/-! ## The guard lines of a forest -/

variable {guards : Scope → Bool → Bool}

/-- Only the line that opens the first branch stands where the forest begins. -/
theorem Within.opening_or_lt {block : Block} {inner later : Forest} {closer : Closer}
    {closed : Span} {low high : Nat} {outermost : Bool} {placed : Placed}
    (h : (branch block inner closer closed later).Within low high)
    (hPlaced : placed ∈ (branch block inner closer closed later).guardLines guards outermost) :
    placed = Scope.openingLine ⟨block, closed.start⟩ ∨ block.opened.start < placed.offset := by
  obtain ⟨_, hOpened, hRegion, _, _, hInside, hAfter⟩ := h
  have hInner : placed ∈ inner.guardLines guards false → block.opened.start < placed.offset := by
    intro hMem
    have hBetween := hInside.guardLines hMem
    omega
  rcases List.mem_append.mp hPlaced with hPlaced | hPlaced
  · split at hPlaced
    · simp only [List.mem_cons, List.mem_append, List.not_mem_nil, or_false] at hPlaced
      rcases hPlaced with rfl | hPlaced | rfl
      · exact .inl rfl
      · exact .inr (hInner hPlaced)
      · refine .inr ?_
        show block.opened.start < closed.start
        omega
    · exact .inr (hInner hPlaced)
  · have hBehind := hAfter.guardLines hPlaced
    exact .inr (by omega)

/--
A guard line stands before those of the branches behind its branch, or meets the first
of them at the `#else` between the branches.
-/
theorem follows_after {source : Text} {block : Block} {between rest : List DirectiveLine}
    {line : DirectiveLine} {inner later : Forest} {closer : Closer} {outermost : Bool}
    (hAfter : Reads (closer.next line.span block) between later rest)
    (hSpaced : Spaced source line.span.stop between) (hLine : line ∈ all)
    (hStands : line.StandsIn source) (hCloses : line.directive = .closes closer)
    (hFirst : first.offset < line.span.start ∨ first = Scope.closingLine ⟨block, line.span.start⟩)
    (hSecond : second ∈ later.guardLines guards outermost) :
    (branch block inner closer line.span later).Follows all first second := by
  have hOwn := hStands.start_lt_stop
  have hAt : first.offset ≤ line.span.start := by
    rcases hFirst with hLess | rfl
    · exact Nat.le_of_lt hLess
    · exact Nat.le_refl _
  obtain ⟨behind, _, _, hWithin⟩ := hAfter.within hSpaced (opened_of_mem_next hOwn)
  have hPlace := hWithin behind (Nat.le_refl _)
  cases closer with
  | final =>
      have hBehind := hPlace.guardLines hSecond
      have hLow : line.span.stop ≤ second.offset := hBehind.1
      exact .inl (by omega)
  | alternative =>
      obtain ⟨inside, closer', closed', after, rfl⟩ := hAfter.eq_branch
      rcases hPlace.opening_or_lt hSecond with rfl | hLess
      · rcases hFirst with hLess | rfl
        · exact .inl hLess
        · exact .inr ⟨rfl, ⟨block, line.span.start⟩, by simp [scopes],
            ⟨block.alternative line.span, closed'.start⟩, by simp [scopes], line, hLine, hCloses,
            rfl, rfl, rfl, rfl⟩
      · have hLess : line.span.start < second.offset := hLess
        exact .inl (by omega)

/-- Of two guard lines, the earlier one stands before the later one or meets it at an `#else`. -/
theorem Reads.pairwise_guardLines {source : Text} {first : Option Block}
    {lines rest : List DirectiveLine} {forest : Forest} (h : Reads first lines forest rest)
    {bound : Nat} (hLines : Spaced source bound lines)
    (hFirst : ∀ block ∈ first, block.opened.start < block.opened.stop ∧ block.opened.stop ≤ bound)
    (hAll : lines ⊆ all) (outermost : Bool) :
    (forest.guardLines guards outermost).Pairwise (forest.Follows all) := by
  induction h generalizing bound outermost with
  | stop _ => exact List.Pairwise.nil
  | opens hOpens _ ih =>
      obtain ⟨_, hStands, hRest⟩ := hLines
      have hOwn := hStands.start_lt_stop
      exact ih hRest (by simpa using hOwn) (List.subset_of_cons_subset hAll) outermost
  | @closes block lines between rest line inside after closer hInside hCloses hAfter ihInside
      ihAfter =>
      obtain ⟨hOpened, hStop⟩ := hFirst block rfl
      obtain ⟨middle, hMiddle, ⟨hLine, hStands, hBetween⟩, hWithin⟩ :=
        hInside.within hLines (by simp)
      have hPlace : inside.Within bound line.span.start := hWithin _ hLine
      have hOwn := hStands.start_lt_stop
      have hRest : line :: between ⊆ all := List.Subset.trans hInside.suffix.subset hAll
      have hInner : (inside.guardLines guards false).Pairwise
          ((branch block inside closer line.span after).Follows all) :=
        (ihInside hLines (by simp) hAll false).imp fun hFollows =>
          hFollows.mono fun scope hScope => by simp [scopes, hScope]
      have hLater : (after.guardLines guards outermost).Pairwise
          ((branch block inside closer line.span after).Follows all) :=
        (ihAfter hBetween (opened_of_mem_next hOwn) (List.subset_of_cons_subset hRest)
          outermost).imp fun hFollows => hFollows.mono fun scope hScope => by simp [scopes, hScope]
      refine List.pairwise_append.mpr ⟨?_, hLater, ?_⟩
      · split
        · -- The lines of the branch itself are around those inside it.
          refine List.pairwise_cons.mpr ⟨?_, List.pairwise_append.mpr ⟨hInner, by simp, ?_⟩⟩
          · intro placed hPlaced
            refine .inl ?_
            show block.opened.start < placed.offset
            rcases List.mem_append.mp hPlaced with hPlaced | hPlaced
            · have hBelow := hPlace.guardLines hPlaced
              omega
            · obtain rfl := List.mem_singleton.mp hPlaced
              show block.opened.start < line.span.start
              omega
          · intro placed hPlaced last hLast
            obtain rfl := List.mem_singleton.mp hLast
            exact .inl (hPlace.guardLines hPlaced).2
        · exact hInner
      · intro placed hPlaced other hOther
        refine follows_after hAfter hBetween (hRest (by simp)) hStands hCloses ?_ hOther
        split at hPlaced
        · simp only [List.mem_cons, List.mem_append, List.not_mem_nil, or_false] at hPlaced
          rcases hPlaced with rfl | hPlaced | rfl
          · refine .inl ?_
            show block.opened.start < line.span.start
            omega
          · exact .inl (hPlace.guardLines hPlaced).2
          · exact .inr rfl
        · exact .inl (hPlace.guardLines hPlaced).2

theorem IsOf.pairwise_guardLines {source : Text} {forest : Forest}
    (h : IsOf (directiveLines source) forest) (guards : Scope → Bool → Bool) :
    (forest.guardLines guards true).Pairwise (forest.Follows (directiveLines source)) :=
  Reads.pairwise_guardLines h (spaced_directiveLines source) (by simp) (List.Subset.refl _) true

end Forest

/-! ## The items of a header -/

namespace ScannedHeader

variable {raw : Text} {settings : Settings} {finders : List Finder} {forest : Forest}

/-- No entity that is handed out shares its offset with a guard line. -/
theorem offset_ne_of_handsOut (hScans : settings.Scans raw finders forest) {entity line : Placed}
    (hEntity : entity ∈ settings.handsOut raw finders forest)
    (hKind : entity.item.isEntity = true)
    (hLine : line ∈ settings.handsOut raw finders forest)
    (hGuard : line.item.isEntity = false) : entity.offset ≠ line.offset := by
  have hInside : (settings.setup finders raw).FindsInside :=
    findsInside_finders hScans.finders_eq _ _
  obtain ⟨high, hWithin⟩ := hScans.isOf.within
  obtain ⟨part, hPart, hOwn⟩ := List.mem_flatMap.mp (mem_of_mem_ordered hEntity)
  have hApart := apart_of_mem_seen hScans hPart (Setup.mem_seen_of_mem_itemsOf hOwn hKind)
  have hGuardLine : line ∈ forest.guardLines (settings.setup finders raw).guards true := by
    rw [← filter_guard_ordered_parts hInside hWithin (Comment.strip raw)]
    exact List.mem_filter.mpr ⟨hLine, by simp [hGuard]⟩
  obtain ⟨scope, hScope, hPlace⟩ := Forest.exists_scope_of_mem_guardLines hGuardLine
  obtain ⟨hNotOpened, hNotClosed⟩ := hApart.apart scope hScope
  omega

/-- Of two items handed out, the earlier one stands before the later one or meets it at `#else`. -/
theorem pairwise_handsOut (hScans : settings.Scans raw finders forest) :
    (settings.handsOut raw finders forest).Pairwise
      (forest.Follows (directiveLines (Comment.strip raw))) := by
  have hInside : (settings.setup finders raw).FindsInside :=
    findsInside_finders hScans.finders_eq _ _
  obtain ⟨high, hWithin⟩ := hScans.isOf.within
  have hOrder : Ascending (settings.handsOut raw finders forest) := ascending_ordered _
  have hEntities : (settings.handsOut raw finders forest).Pairwise fun a b =>
      a.item.isEntity = true → b.item.isEntity = true → a.offset < b.offset :=
    pairwise_keepFirst (ascending_sorted _) none
  have hLines := hScans.isOf.pairwise_guardLines (settings.setup finders raw).guards
  rw [← filter_guard_ordered_parts hInside hWithin (Comment.strip raw),
    List.pairwise_filter] at hLines
  have hBoth := (hOrder.and hEntities).and hLines
  refine hBoth.imp_of_mem fun {a b} ha hb hOrders => ?_
  obtain ⟨⟨hLe, hStrict⟩, hGuards⟩ := hOrders
  cases hFirst : a.item.isEntity with
  | true =>
      cases hSecond : b.item.isEntity with
      | true => exact .inl (hStrict hFirst hSecond)
      | false =>
          have hNe := offset_ne_of_handsOut hScans ha hFirst hb hSecond
          exact .inl (by omega)
  | false =>
      cases hSecond : b.item.isEntity with
      | true =>
          have hNe := offset_ne_of_handsOut hScans hb hSecond ha hFirst
          exact .inl (by omega)
      | false => exact hGuards (by simp [hFirst]) (by simp [hSecond])

/--
The offsets of the items of a header never decrease. Two items in a row have the same
offset only where an `#else` stands, and then they are the closing line of the branch
that it ends and the opening line of the branch that it begins. No entity shares its
offset with any other item.
-/
theorem offsets_of_ofText {header : ScannedHeader} (h : ofText raw settings = .ok header) :
    ∃ forest, Forest.IsOf (directiveLines header.source) forest ∧
      (∀ before first second after, header.items = before ++ first :: second :: after →
        first.offset ≤ second.offset ∧
          (first.offset = second.offset →
            forest.MeetAtElse (directiveLines header.source) first second)) ∧
      ∀ before entity after, header.items = before ++ entity :: after →
        entity.item.isEntity = true → ∀ other ∈ before ++ after, other.offset ≠ entity.offset := by
  obtain ⟨finders, forest, hScans, rfl⟩ := exists_scans_of_ofText h
  have hPairs := pairwise_handsOut hScans
  refine ⟨forest, hScans.isOf, ?_, ?_⟩
  · intro before first second after hItems
    have hItems : settings.handsOut raw finders forest = before ++ first :: second :: after :=
      hItems
    rw [hItems] at hPairs
    have hFollows := (List.pairwise_cons.mp (List.pairwise_append.mp hPairs).2.1).1 second
      (by simp)
    refine ⟨hFollows.le, fun hSame => ?_⟩
    rcases hFollows with hLess | ⟨_, hMeet⟩
    · omega
    · exact hMeet
  · intro before entity after hItems hEntity other hOther hSame
    have hItems : settings.handsOut raw finders forest = before ++ entity :: after := hItems
    rw [hItems] at hPairs
    obtain ⟨_, hBehind, hAhead⟩ := List.pairwise_append.mp hPairs
    rcases List.mem_append.mp hOther with hMem | hMem
    · rcases hAhead other hMem entity (by simp) with hLess | ⟨_, hMeet⟩
      · omega
      · rw [hMeet.isGuard.2] at hEntity
        cases hEntity
    · rcases (List.pairwise_cons.mp hBehind).1 other hMem with hLess | ⟨_, hMeet⟩
      · omega
      · rw [hMeet.isGuard.1] at hEntity
        cases hEntity

/-! ## A header with an `#else` -/

/-- The items of a header with a group on either side of a block. -/
def alternatingItems : List Placed :=
  [⟨0, .guard ⟨"#ifdef A".toList, false⟩⟩,
    ⟨9, .entity (.macroGroup ⟨"MBEDTLS_TLS1_3_SIG_".toList,
      [⟨"MBEDTLS_TLS1_3_SIG_X".toList, "0x1".toList, ⟨9, 41⟩⟩]⟩)⟩,
    ⟨42, .guard ⟨"#endif /* defined(A) */".toList, true⟩⟩,
    ⟨42, .guard ⟨"#ifndef A".toList, false⟩⟩,
    ⟨48, .entity (.macroGroup ⟨"MBEDTLS_TLS1_3_SIG_".toList,
      [⟨"MBEDTLS_TLS1_3_SIG_Y".toList, "0x2".toList, ⟨48, 80⟩⟩]⟩)⟩,
    ⟨81, .guard ⟨"#endif /* !defined(A) */".toList, true⟩⟩]

theorem ofText_alternating :
    ofText alternating {} = .ok ⟨Comment.strip alternating, alternatingItems⟩ := by
  obtain ⟨finders, hFinders⟩ : ∃ finders, ({} : Settings).finders = .ok finders :=
    exists_finders (by decide)
  have hAscending : Placed.Ascending alternatingItems := by
    unfold Placed.Ascending
    decide
  refine ofText_of_ascending hFinders ?_ ?_ hAscending (by decide)
  · cases hFinders
    decide +kernel
  · cases hFinders
    decide +kernel

/-- In that header two guard lines stand where the `#else` does, and no entity. -/
theorem offsets_of_ofText_alternating :
    ∃ header forest, ofText alternating {} = .ok header ∧
      Forest.IsOf (directiveLines header.source) forest ∧
      (∃ before first second after, header.items = before ++ first :: second :: after ∧
        first.offset = 42 ∧ second.offset = 42 ∧
        forest.MeetAtElse (directiveLines header.source) first second) ∧
      ∀ before entity after, header.items = before ++ entity :: after →
        entity.item.isEntity = true → ∀ other ∈ before ++ after, other.offset ≠ entity.offset := by
  obtain ⟨forest, hForest, hOrder, hApart⟩ := offsets_of_ofText ofText_alternating
  refine ⟨_, forest, ofText_alternating, hForest, ?_, hApart⟩
  have hItems : alternatingItems = alternatingItems.take 2 ++
      ⟨42, .guard ⟨"#endif /* defined(A) */".toList, true⟩⟩ ::
      ⟨42, .guard ⟨"#ifndef A".toList, false⟩⟩ :: alternatingItems.drop 4 := rfl
  exact ⟨_, _, _, _, hItems, rfl, rfl, (hOrder _ _ _ _ hItems).2 rfl⟩

end ScannedHeader

end ValueNames
