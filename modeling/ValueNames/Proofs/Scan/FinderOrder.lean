import ValueNames.Proofs.Scan.Batch
import ValueNames.Proofs.Scan.Outermost
import ValueNames.Proofs.Scan.Parts

/-!
# What the order of the finders decides

The finders are called one after the other on every part of a source, and a part is
looked at after the parts inside it. Of the entities reported at one offset the first
is kept. So the order of the finders matters only where two of them report the same
offset of the same part, and an inner part goes before the order of the finders.

## Main results

* `Setup.batch_perm` — finders that never report the same offset can be listed in any order.
* `Setup.exists_reportedFirst` — what is kept at an offset is what the first finder that
  reports it in the innermost part finds there.
* `exists_collect_firstReported` — both, for what a scan hands out.
-/

namespace ValueNames

open Scan Placed

/-! ## What a finder reports -/

namespace Finder

/-- The entities that a finder finds in a region, at their places; none where it fails. -/
def reported (source : Text) (region : Span) (finder : Finder) : List Placed :=
  match finder.find source region with
  | .ok entities => entities.filterMap Entity.placed?
  | .error _ => []

/-- Whether a finder reports an entity of a region that starts at an offset. -/
def ReportsAt (source : Text) (region : Span) (offset : Nat) (finder : Finder) : Prop :=
  ∃ placed ∈ finder.reported source region, placed.offset = offset

theorem filter_reported_eq_nil_iff {source : Text} {region : Span} {offset : Nat}
    {finder : Finder} :
    (finder.reported source region).filter (standsAt offset) = [] ↔
      ¬ finder.ReportsAt source region offset := by
  rw [List.filter_eq_nil_iff, ReportsAt]
  simp

end Finder

/-- Lists of which at most one is not empty can be joined in any order. -/
theorem flatMap_eq_of_perm {α β : Type} {f : α → List β} {xs ys : List α} (h : xs.Perm ys)
    (hApart : ∀ x ∈ xs, ∀ y ∈ xs, x ≠ y → f x = [] ∨ f y = []) :
    xs.flatMap f = ys.flatMap f := by
  induction h with
  | nil => rfl
  | cons x _ ih =>
      rw [List.flatMap_cons, List.flatMap_cons, ih]
      exact fun y hy z hz => hApart y (by simp [hy]) z (by simp [hz])
  | swap x y rest =>
      by_cases hSame : y = x
      · rw [hSame]
      · simp only [List.flatMap_cons]
        rcases hApart y (by simp) x (by simp) hSame with hNone | hNone
        · simp [hNone]
        · simp [hNone]
  | trans hFirst _ ihFirst ihSecond =>
      rw [ihFirst hApart, ihSecond]
      exact fun y hy z hz => hApart y (hFirst.mem_iff.mpr hy) z (hFirst.mem_iff.mpr hz)

namespace Scan

namespace Setup

variable {setup : Setup}

theorem seen_eq_flatMap (region : Span) :
    setup.seen region = setup.finders.flatMap (Finder.reported setup.source region) := rfl

/-- Whether some finder reports an entity of a region that starts at an offset. -/
def ReportsAt (setup : Setup) (region : Span) (offset : Nat) : Prop :=
  ∃ finder ∈ setup.finders, finder.ReportsAt setup.source region offset

theorem reportsAt_iff {region : Span} {offset : Nat} :
    setup.ReportsAt region offset ↔ ∃ placed ∈ setup.seen region, placed.offset = offset := by
  simp only [ReportsAt, Finder.ReportsAt, seen_eq_flatMap, List.mem_flatMap]
  constructor
  · rintro ⟨finder, hFinder, placed, hPlaced, hOffset⟩
    exact ⟨placed, ⟨finder, hFinder, hPlaced⟩, hOffset⟩
  · rintro ⟨placed, ⟨finder, hFinder, hPlaced⟩, hOffset⟩
    exact ⟨finder, hFinder, placed, hPlaced, hOffset⟩

/-- What is reported at an offset stands in the region. -/
theorem ReportsAt.holds (hInside : setup.FindsInside) {region : Span} {offset : Nat}
    (h : setup.ReportsAt region offset) : region.start ≤ offset ∧ offset < region.stop := by
  obtain ⟨placed, hPlaced, rfl⟩ := reportsAt_iff.mp h
  exact (mem_seen hInside hPlaced).2

/-! ## Finders in another order -/

/-- The same scan with other finders. -/
def withFinders (setup : Setup) (finders : List Finder) : Setup := { setup with finders }

/-- No two different finders report an entity of the same region at the same offset. -/
def ReportsApart (setup : Setup) : Prop :=
  ∀ first ∈ setup.finders, ∀ second ∈ setup.finders, first ≠ second → ∀ region offset,
    first.ReportsAt setup.source region offset → ¬ second.ReportsAt setup.source region offset

variable {finders : List Finder}

/-- At each offset of a region the same is seen in any order of the finders. -/
theorem filter_seen_perm (hPerm : finders.Perm setup.finders) (hApart : setup.ReportsApart)
    (region : Span) (offset : Nat) :
    ((setup.withFinders finders).seen region).filter (standsAt offset) =
      (setup.seen region).filter (standsAt offset) := by
  rw [seen_eq_flatMap, seen_eq_flatMap, List.filter_flatMap, List.filter_flatMap]
  refine (flatMap_eq_of_perm hPerm.symm fun first hFirst second hSecond hOther => ?_).symm
  show (first.reported setup.source region).filter _ = [] ∨
    (second.reported setup.source region).filter _ = []
  rw [Finder.filter_reported_eq_nil_iff, Finder.filter_reported_eq_nil_iff]
  by_cases hReports : first.ReportsAt setup.source region offset
  · exact .inr (hApart first hFirst second hSecond hOther region offset hReports)
  · exact .inl hReports

theorem seen_perm (hPerm : finders.Perm setup.finders) (region : Span) :
    ((setup.withFinders finders).seen region).Perm (setup.seen region) :=
  hPerm.flatMap_right _

/-- At each offset of a part the same items are found in any order of the finders. -/
theorem filter_itemsOf_perm (hPerm : finders.Perm setup.finders) (hApart : setup.ReportsApart)
    (part : Part) (offset : Nat) :
    ((setup.withFinders finders).itemsOf part).filter (standsAt offset) =
      (setup.itemsOf part).filter (standsAt offset) := by
  have hSeen := filter_seen_perm hPerm hApart part.region offset
  cases part with
  | topLevel region => exact hSeen
  | branch scope outermost =>
      have hNil : (setup.withFinders finders).seen scope.region = [] ↔
          setup.seen scope.region = [] := by
        have hPermSeen := seen_perm hPerm scope.region
        constructor
        · intro hNone
          rw [hNone] at hPermSeen
          exact List.nil_perm.mp hPermSeen
        · intro hNone
          rw [hNone] at hPermSeen
          exact List.perm_nil.mp hPermSeen
      have hFlag : (setup.withFinders finders).unguardedOutermost = setup.unguardedOutermost := rfl
      simp only [itemsOf, hNil, hFlag]
      split
      · exact hSeen
      · have hSeen : ((setup.withFinders finders).seen scope.region).filter (standsAt offset) =
            (setup.seen scope.region).filter (standsAt offset) := hSeen
        simp only [List.cons_append, List.filter_cons, List.filter_append, hSeen]

/-- Finders that never report the same offset can be listed in any order. -/
theorem batch_perm (hPerm : finders.Perm setup.finders) (hApart : setup.ReportsApart)
    (forest : Forest) : (setup.withFinders finders).batch forest = setup.batch forest := by
  apply ordered_eq_of_filter
  intro offset
  rw [List.filter_flatMap, List.filter_flatMap]
  simp only [filter_itemsOf_perm hPerm hApart]
  rfl

theorem findsInside_withFinders (h : setup.FindsInside) (hFinders : finders ⊆ setup.finders) :
    (setup.withFinders finders).FindsInside :=
  fun finder hFinder => h finder (hFinders hFinder)

theorem findsEverywhere_withFinders (h : setup.FindsEverywhere)
    (hFinders : finders ⊆ setup.finders) : (setup.withFinders finders).FindsEverywhere :=
  fun finder hFinder => h finder (hFinders hFinder)

/-! ## What is reported first -/

/--
Of what is reported at an offset in some parts, `placed` comes first: it is the first
that `finder` reports there, no finder registered before it reports anything there in
`part`, and no part inside `part` reports anything there. Text outside all blocks comes
after every branch.
-/
structure ReportedFirst (setup : Setup) (parts : List Part) (offset : Nat) (part : Part)
    (finder : Finder) (placed : Placed) : Prop where
  first_entity : (finder.reported setup.source part.region).find? (standsAt offset) = some placed
  first_finder : ∃ front back, setup.finders = front ++ finder :: back ∧
    ∀ other ∈ front, ¬ other.ReportsAt setup.source part.region offset
  first_part : ∃ earlier later, parts = earlier ++ part :: later ∧
    ∀ other ∈ earlier, ¬ setup.ReportsAt other.region offset
  innermost : ∀ other ∈ parts, setup.ReportsAt other.region offset →
    other = part ∨ part.region.Inside other.region
  branch_first : ∀ scope level, .branch scope level ∈ parts →
    setup.ReportsAt scope.region offset → ∃ scope level, part = .branch scope level

/-- The entities at an offset among the items of some parts are those reported there. -/
theorem filter_isEntityAt_parts (hInside : setup.FindsInside) (parts : List Part) (offset : Nat) :
    (parts.flatMap setup.itemsOf).filter (isEntityAt offset) =
      parts.flatMap fun part => (setup.seen part.region).filter (standsAt offset) := by
  have hBoth : ∀ items : List Placed, items.filter (isEntityAt offset) =
      (items.filter (·.item.isEntity)).filter (standsAt offset) := by
    intro items
    rw [List.filter_filter]
    exact List.filter_congr fun placed _ => Bool.and_comm _ _
  rw [hBoth, filter_entity_flatMap_itemsOf hInside, List.filter_flatMap]

/-- The first entity seen at an offset of a region is the first of the first finder. -/
theorem head_filter_seen (region : Span) (offset : Nat) :
    ((setup.seen region).filter (standsAt offset)).head? =
      setup.finders.findSome? fun finder =>
        (finder.reported setup.source region).find? (standsAt offset) := by
  rw [seen_eq_flatMap, List.filter_flatMap, List.head?_flatMap]
  simp only [List.head?_filter]

theorem head_filter_seen_eq_none_iff {region : Span} {offset : Nat} :
    ((setup.seen region).filter (standsAt offset)).head? = none ↔
      ¬ setup.ReportsAt region offset := by
  rw [List.head?_eq_none_iff, List.filter_eq_nil_iff, reportsAt_iff]
  simp

/--
Where something is reported at an offset, one entity is left there after ordering, and
it is what is reported first.
-/
theorem exists_reportedFirst (hInside : setup.FindsInside) {forest : Forest}
    (hForest : Forest.IsOf (Conditional.directiveLines setup.source) forest) {offset : Nat}
    (h : ∃ part ∈ forest.parts setup.source 0 none, setup.ReportsAt part.region offset) :
    ∃ part finder placed,
      setup.ReportedFirst (forest.parts setup.source 0 none) offset part finder placed ∧
        (setup.batch forest).filter (isEntityAt offset) = [placed] := by
  rw [batch, filter_isEntityAt_ordered, filter_isEntityAt_parts hInside, List.head?_flatMap]
  cases hHead : (forest.parts setup.source 0 none).findSome? fun part =>
      ((setup.seen part.region).filter (standsAt offset)).head? with
  | none =>
      obtain ⟨part, hPart, hReports⟩ := h
      have hNone := List.findSome?_eq_none_iff.mp hHead part hPart
      exact absurd hReports (head_filter_seen_eq_none_iff.mp hNone)
  | some placed =>
      obtain ⟨earlier, part, later, hParts, hPlaced, hEarlier⟩ :=
        List.findSome?_eq_some_iff.mp hHead
      have hNotBefore : ∀ other ∈ earlier, ¬ setup.ReportsAt other.region offset :=
        fun other hOther => head_filter_seen_eq_none_iff.mp (hEarlier other hOther)
      rw [head_filter_seen] at hPlaced
      obtain ⟨front, finder, back, hFinders, hFirst, hFront⟩ :=
        List.findSome?_eq_some_iff.mp hPlaced
      have hOwn : setup.ReportsAt part.region offset :=
        ⟨finder, by simp [hFinders], placed, List.mem_of_find?_eq_some hFirst,
          standsAt_iff.mp (List.find?_some hFirst)⟩
      have hHolds := hOwn.holds hInside
      have hInnermost : ∀ other ∈ forest.parts setup.source 0 none,
          setup.ReportsAt other.region offset → other = part ∨
            part.region.Inside other.region := by
        intro other hOther hReports
        rw [hParts] at hOther
        rcases List.mem_append.mp hOther with hMem | hMem
        · exact absurd hReports (hNotBefore other hMem)
        · rcases List.mem_cons.mp hMem with rfl | hMem
          · exact .inl rfl
          · obtain ⟨ahead, behind, rfl⟩ := List.append_of_mem hMem
            have hSplit : forest.parts setup.source 0 none =
                (earlier ++ part :: ahead) ++ other :: behind := by
              rw [hParts]
              simp
            exact .inr (hForest.inside_of_earlier hSplit (by simp) (hReports.holds hInside).1
              hHolds.2)
      refine ⟨part, finder, placed, ⟨hFirst, ⟨front, back, hFinders, ?_⟩,
        ⟨earlier, later, hParts, hNotBefore⟩, hInnermost, ?_⟩, rfl⟩
      · rintro other hOther ⟨own, hMem, hOffset⟩
        exact List.find?_eq_none.mp (hFront other hOther) own hMem (standsAt_iff.mpr hOffset)
      · intro scope level hBranch hReports
        cases part with
        | branch own level => exact ⟨own, level, rfl⟩
        | topLevel region =>
            -- The branch would be the inner one of the two.
            have hTop : .topLevel region ∈ forest.parts setup.source 0 none := by simp [hParts]
            have hInner := hForest.branch_inside_topLevel hTop hBranch hHolds
              (hReports.holds hInside)
            rcases hInnermost _ hBranch hReports with hSame | hOuter
            · cases hSame
            · have hLess : scope.region.start < region.start := hOuter.1
              have hMore : region.start < scope.region.start := hInner.1
              omega

/-- With finders that never fail, a scan of a balanced source hands out its batch. -/
theorem collect_eq_batch (hInside : setup.FindsInside) (hEverywhere : setup.FindsEverywhere)
    {forest : Forest} (hForest : Forest.IsOf (Conditional.directiveLines setup.source) forest) :
    (Cursor.start setup).collect = .ok (setup.batch forest) := by
  obtain ⟨found, hFound⟩ := exists_gather hInside (callsSucceed_of_findsEverywhere hEverywhere)
  have hBalanced := Forest.exists_isOf_iff.mp ⟨forest, hForest⟩
  have hCollect : (Cursor.start setup).collect = .ok (Placed.ordered found) := by
    rw [collect_eq_gather hInside, hFound, (Outline.fault?_eq_none_iff _).mpr hBalanced]
    rfl
  rw [Outline.parts_eq_of_isOf hForest] at hFound
  rw [hCollect, gather_eq hInside hFound]
  rfl

end Setup

/--
With finders that never fail, the scan of a balanced source hands out items that do not
depend on the order of the finders, if no two of them report the same offset of a
region. In any case exactly one entity is handed out at each offset at which one is
reported: what the first of the finders reports there first, in the innermost part.
-/
theorem exists_collect_firstReported {setup : Setup} (hInside : setup.FindsInside)
    (hEverywhere : setup.FindsEverywhere)
    (hBalanced : Conditional.Balanced (Conditional.directiveLines setup.source)) :
    ∃ forest items, Forest.IsOf (Conditional.directiveLines setup.source) forest ∧
      (Cursor.start setup).collect = .ok items ∧
      (setup.ReportsApart → ∀ finders : List Finder, finders.Perm setup.finders →
        (Cursor.start (setup.withFinders finders)).collect = .ok items) ∧
      ∀ offset, (∃ part ∈ forest.parts setup.source 0 none, setup.ReportsAt part.region offset) →
        ∃ part finder placed,
          setup.ReportedFirst (forest.parts setup.source 0 none) offset part finder placed ∧
            items.filter (isEntityAt offset) = [placed] := by
  obtain ⟨forest, hForest⟩ := Forest.exists_isOf_iff.mpr hBalanced
  refine ⟨forest, setup.batch forest, hForest, Setup.collect_eq_batch hInside hEverywhere hForest,
    ?_, fun offset hReported => Setup.exists_reportedFirst hInside hForest hReported⟩
  intro hApart finders hPerm
  rw [← Setup.batch_perm hPerm hApart]
  exact Setup.collect_eq_batch (Setup.findsInside_withFinders hInside hPerm.subset)
    (Setup.findsEverywhere_withFinders hEverywhere hPerm.subset) hForest

/-! ## An example -/

/-- Finds an enumeration from one offset to the end of the region, in regions with that offset. -/
def standing (name : Text) (offset : Nat) : Finder where
  name := name
  find _ region :=
    .ok (if region.start ≤ offset ∧ offset < region.stop then
      [.enumeration ⟨name, name, [], ⟨offset, region.stop⟩⟩]
    else [])

/-- A block inside another one, looked at by finders for one letter in each. -/
def Setup.layered : Setup where
  source := "#if A\nx\n#ifdef B\ny\n#endif\n#endif\n".toList
  finders := [standing "y".toList 17, standing "x".toList 6]
  unguardedOutermost := false

theorem reported_standing (source name : Text) {region : Span} {offset : Nat}
    (h : region.start ≤ offset ∧ offset < region.stop) :
    (standing name offset).reported source region =
      [⟨offset, .entity (.enumeration ⟨name, name, [], ⟨offset, region.stop⟩⟩)⟩] := by
  simp [Finder.reported, standing, h, Entity.placed?, Entity.span?]

theorem reportsAt_standing {source name : Text} {region : Span} {offset other : Nat}
    (h : (standing name offset).ReportsAt source region other) : offset = other := by
  obtain ⟨placed, hPlaced, rfl⟩ := h
  by_cases hHere : region.start ≤ offset ∧ offset < region.stop
  · rw [reported_standing source name hHere] at hPlaced
    rw [List.mem_singleton.mp hPlaced]
  · simp [Finder.reported, standing, hHere] at hPlaced

theorem exists_standing {finder : Finder} (h : finder ∈ Setup.layered.finders) :
    finder = standing "y".toList 17 ∨ finder = standing "x".toList 6 := by
  have hFinders : Setup.layered.finders = [standing "y".toList 17, standing "x".toList 6] := rfl
  rw [hFinders] at h
  simpa using h

theorem findsInside_layered : Setup.layered.FindsInside := by
  intro finder hFinder region entities hFind entity hEntity
  have hStanding : ∀ name offset, (standing name offset).find Setup.layered.source region =
      .ok entities → ∃ span, entity.span? = some span ∧ region.start ≤ span.start ∧
        span.start < region.stop := by
    intro name offset hFind
    by_cases hHere : region.start ≤ offset ∧ offset < region.stop
    · simp only [standing, if_pos hHere, Except.ok.injEq] at hFind
      subst hFind
      obtain rfl := List.mem_singleton.mp hEntity
      exact ⟨_, rfl, hHere⟩
    · simp only [standing, if_neg hHere, Except.ok.injEq] at hFind
      subst hFind
      cases hEntity
  rcases exists_standing hFinder with rfl | rfl
  · exact hStanding _ _ hFind
  · exact hStanding _ _ hFind

theorem findsEverywhere_layered : Setup.layered.FindsEverywhere := by
  intro finder hFinder region text _
  rcases exists_standing hFinder with rfl | rfl
  · exact ⟨_, rfl⟩
  · exact ⟨_, rfl⟩

theorem reportsApart_layered : Setup.layered.ReportsApart := by
  intro first hFirst second hSecond hOther region offset hReports hAlso
  rcases exists_standing hFirst with rfl | rfl
  · rcases exists_standing hSecond with rfl | rfl
    · exact hOther rfl
    · cases (reportsAt_standing hReports).trans (reportsAt_standing hAlso).symm
  · rcases exists_standing hSecond with rfl | rfl
    · cases (reportsAt_standing hReports).trans (reportsAt_standing hAlso).symm
    · exact hOther rfl

/--
In that source both blocks report the letter of the inner one. It is handed out as the
inner block reports it, also if the finders are called the other way round.
-/
theorem collect_layered :
    Setup.layered.FindsInside ∧ Setup.layered.FindsEverywhere ∧
      Conditional.Balanced (Conditional.directiveLines Setup.layered.source) ∧
      Setup.layered.ReportsApart ∧
      ∃ items, (Cursor.start Setup.layered).collect = .ok items ∧
        (Cursor.start (Setup.layered.withFinders
          [standing "x".toList 6, standing "y".toList 17])).collect = .ok items ∧
        items.filter (isEntityAt 17) =
          [⟨17, .entity (.enumeration ⟨"y".toList, "y".toList, [], ⟨17, 19⟩⟩)⟩] := by
  have hBalanced : Conditional.Balanced (Conditional.directiveLines Setup.layered.source) := by
    decide +kernel
  obtain ⟨forest, items, hForest, hCollect, hPerm, hFirst⟩ :=
    exists_collect_firstReported findsInside_layered findsEverywhere_layered hBalanced
  refine ⟨findsInside_layered, findsEverywhere_layered, hBalanced, reportsApart_layered, items,
    hCollect, hPerm reportsApart_layered _ (List.Perm.swap _ _ []), ?_⟩
  have hParts : forest.parts Setup.layered.source 0 none =
      [.topLevel ⟨0, 0⟩,
        .branch ⟨⟨⟨.defined, "B".toList⟩, ⟨8, 16⟩⟩, 19⟩ false,
        .branch ⟨⟨⟨.expression, "A".toList⟩, ⟨0, 5⟩⟩, 26⟩ true, .topLevel ⟨32, 33⟩] := by
    rw [← Outline.parts_eq_of_isOf hForest]
    decide +kernel
  have hOwn : (standing "y".toList 17).reported Setup.layered.source ⟨16, 19⟩ =
      [⟨17, .entity (.enumeration ⟨"y".toList, "y".toList, [], ⟨17, 19⟩⟩)⟩] :=
    reported_standing _ _ (by decide)
  have hInner : Setup.layered.ReportsAt ⟨16, 19⟩ 17 :=
    ⟨standing "y".toList 17, List.mem_cons_self, _, by rw [hOwn]; exact List.mem_cons_self, rfl⟩
  have hBranch : .branch ⟨⟨⟨.defined, "B".toList⟩, ⟨8, 16⟩⟩, 19⟩ false ∈
      forest.parts Setup.layered.source 0 none := by simp [hParts]
  obtain ⟨part, finder, placed, hReported, hItems⟩ := hFirst 17 ⟨_, hBranch, hInner⟩
  have hPart : part.region = ⟨16, 19⟩ := by
    rcases hReported.innermost _ hBranch hInner with hSame | hInside
    · rw [← hSame]
      rfl
    · -- No part stands inside the inner block.
      obtain ⟨earlier, later, hSplit, _⟩ := hReported.first_part
      have hMem : part ∈ forest.parts Setup.layered.source 0 none := by simp [hSplit]
      have hNone : ∀ other ∈ forest.parts Setup.layered.source 0 none,
          ¬ other.region.Inside ⟨16, 19⟩ := by
        rw [hParts]
        decide
      exact absurd hInside (hNone part hMem)
  have hFinder : finder = standing "y".toList 17 := by
    obtain ⟨front, back, hSplit, _⟩ := hReported.first_finder
    have hReports : finder.ReportsAt Setup.layered.source part.region 17 :=
      ⟨placed, List.mem_of_find?_eq_some hReported.first_entity,
        standsAt_iff.mp (List.find?_some hReported.first_entity)⟩
    have hMem : finder ∈ Setup.layered.finders := by simp [hSplit]
    rcases exists_standing hMem with hSame | hSame
    · exact hSame
    · rw [hSame] at hReports
      cases reportsAt_standing hReports
  have hEntity := hReported.first_entity
  rw [hPart, hFinder, hOwn] at hEntity
  rw [hItems, ← Option.some.inj hEntity]

end Scan

end ValueNames
