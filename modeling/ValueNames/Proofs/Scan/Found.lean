import ValueNames.Proofs.Item.Order
import ValueNames.Proofs.Scan.Outline

/-!
# What is found in the parts of a source

A scan looks at one part of its source after the other. This module says what
is found in one part and in some of them, and where the items stand.

## Main results

* `Setup.items_eq` — what is found in a part, where no finder fails there.
* `Setup.gather_eq` — what is found in some parts, where no finder fails there.
* `Setup.exists_gather`, `Setup.exists_find_of_gather` — all parts can be looked at
  where no call of a finder fails.
* `Setup.mem_items` — the items of a part stand between its ends.
-/

namespace ValueNames

/-- An entity at its place, if it has one. -/
def Entity.placed? (entity : Entity) : Option Placed :=
  entity.span?.map fun span => ⟨span.start, .entity entity⟩

/-- The opening line of the guard of a scope. -/
def Scope.openingLine (scope : Scope) : Placed :=
  ⟨scope.block.opened.start, .guard ⟨scope.block.guard.opening, false⟩⟩

/-- The closing line of the guard of a scope. -/
def Scope.closingLine (scope : Scope) : Placed :=
  ⟨scope.closedAt, .guard ⟨scope.block.guard.closing, true⟩⟩

/-! ## Traversals -/

/-- A traversal succeeds if every step does. -/
theorem exists_mapM_eq_ok {α β : Type} {xs : List α} {f : α → Except Fault β}
    (h : ∀ x ∈ xs, ∃ y, f x = .ok y) : ∃ ys, xs.mapM f = .ok ys := by
  induction xs with
  | nil => exact ⟨[], rfl⟩
  | cons x xs ih =>
      obtain ⟨y, hy⟩ := h x (by simp)
      obtain ⟨ys, hys⟩ := ih fun x hx => h x (by simp [hx])
      refine ⟨y :: ys, ?_⟩
      rw [List.mapM_cons, hy, hys]
      rfl

/-- Of a traversal that succeeds, every element has a result. -/
theorem exists_mem_of_mapM {α β : Type} {xs : List α} {ys : List β} {f : α → Except Fault β}
    (h : xs.mapM f = .ok ys) {x : α} (hx : x ∈ xs) : ∃ y ∈ ys, f x = .ok y := by
  induction xs generalizing ys with
  | nil => simp at hx
  | cons first xs ih =>
      rw [List.mapM_cons] at h
      obtain ⟨own, hOwn, h⟩ := bind_eq_ok_iff.mp h
      obtain ⟨others, hOthers, h⟩ := bind_eq_ok_iff.mp h
      cases h
      rcases List.mem_cons.mp hx with rfl | hx
      · exact ⟨own, by simp, hOwn⟩
      · obtain ⟨y, hMem, hy⟩ := ih hOthers hx
        exact ⟨y, by simp [hMem], hy⟩

/-- Of a traversal that succeeds, every result comes from an element. -/
theorem exists_of_mem_mapM {α β : Type} {xs : List α} {ys : List β} {f : α → Except Fault β}
    (h : xs.mapM f = .ok ys) {y : β} (hy : y ∈ ys) : ∃ x ∈ xs, f x = .ok y := by
  induction xs generalizing ys with
  | nil =>
      cases h
      simp at hy
  | cons x xs ih =>
      rw [List.mapM_cons] at h
      obtain ⟨first, hFirst, h⟩ := bind_eq_ok_iff.mp h
      obtain ⟨others, hOthers, h⟩ := bind_eq_ok_iff.mp h
      cases h
      rcases List.mem_cons.mp hy with rfl | hy
      · exact ⟨x, by simp, hFirst⟩
      · obtain ⟨other, hMem, hOther⟩ := ih hOthers hy
        exact ⟨other, by simp [hMem], hOther⟩

namespace Scan

theorem placeEntity_eq_ok_iff {entity : Entity} {placed : Placed} :
    placeEntity entity = .ok placed ↔ entity.placed? = some placed := by
  cases entity with
  | enumeration declared => simp [placeEntity, Entity.placed?, Entity.span?]
  | macroGroup group =>
      cases hSpan : group.span? with
      | none => simp [placeEntity, Entity.placed?, Entity.span?, hSpan]
      | some span => simp [placeEntity, Entity.placed?, Entity.span?, hSpan]

/-! ## What the finders find -/

namespace Setup

variable (setup : Setup)

/-- Every finder returns only entities that start inside the region it looks at. -/
def FindsInside : Prop :=
  ∀ finder ∈ setup.finders, ∀ region entities, finder.find setup.source region = .ok entities →
    ∀ entity ∈ entities, ∃ span,
      entity.span? = some span ∧ region.start ≤ span.start ∧ span.start < region.stop

/-- No finder fails on a region of the source. -/
def FindsEverywhere : Prop :=
  ∀ finder ∈ setup.finders, ∀ region text, regionText setup.source region = .ok text →
    ∃ entities, finder.find setup.source region = .ok entities

/--
No finder fails on a part that the scan looks at, up to the first faulty line.
Outside all blocks a part without text is not looked at.
-/
def CallsSucceed : Prop :=
  ∀ part ∈ State.initial.outline.parts setup.source (Conditional.directiveLines setup.source),
    part.IsLookedAt → ∀ finder ∈ setup.finders, ∃ entities,
      finder.find setup.source part.region = .ok entities

/-- The entities that the finders find in a region, finder by finder; none where one fails. -/
def seen (region : Span) : List Placed :=
  setup.finders.flatMap fun finder =>
    match finder.find setup.source region with
    | .ok entities => entities.filterMap Entity.placed?
    | .error _ => []

/-- The items of a part, where no finder fails. -/
def itemsOf : Part → List Placed
  | .topLevel region => setup.seen region
  | .branch scope outermost =>
      let entities := setup.seen scope.region
      if entities = [] ∨ (setup.unguardedOutermost ∧ outermost) then entities
      else scope.openingLine :: entities ++ [scope.closingLine]

/-- Looks at a part. Nothing is looked for in a part without text outside all blocks. -/
def items : Part → Except Fault (List Placed)
  | .topLevel region => if region.start < region.stop then setup.look region else .ok []
  | .branch scope outermost =>
      (setup.look scope.region).map fun entities =>
        if setup.unguardedOutermost ∧ outermost then entities
        else guarded scope.block scope.closedAt entities

/-- Looks at some parts, one after the other. -/
def gather : List Part → Except Fault (List Placed)
  | [] => .ok []
  | part :: rest => (setup.items part).bind fun found => (gather rest).map (found ++ ·)

variable {setup}

/-- A list of entities is placed one by one, and only if all of them have a place. -/
theorem mapM_placeEntity {entities : List Entity} {found : List Placed}
    (h : entities.mapM placeEntity = .ok found) : found = entities.filterMap Entity.placed? := by
  induction entities generalizing found with
  | nil =>
      cases h
      rfl
  | cons entity rest ih =>
      rw [List.mapM_cons] at h
      obtain ⟨placed, hPlaced, h⟩ := bind_eq_ok_iff.mp h
      obtain ⟨others, hOthers, h⟩ := bind_eq_ok_iff.mp h
      cases h
      rw [List.filterMap_cons, placeEntity_eq_ok_iff.mp hPlaced, ih hOthers]

/-- Looking at a region finds what is seen there, unless a finder fails. -/
theorem look_eq_seen {region : Span} {found : List Placed} (h : setup.look region = .ok found) :
    found = setup.seen region := by
  obtain ⟨lists, hLists, rfl⟩ := map_eq_ok_iff.mp h
  clear h
  unfold seen
  generalize setup.finders = finders at hLists
  induction finders generalizing lists with
  | nil =>
      cases hLists
      rfl
  | cons finder rest ih =>
      rw [List.mapM_cons] at hLists
      obtain ⟨own, hOwn, hLists⟩ := bind_eq_ok_iff.mp hLists
      obtain ⟨others, hOthers, hLists⟩ := bind_eq_ok_iff.mp hLists
      cases hLists
      obtain ⟨entities, hFind, hPlaced⟩ := bind_eq_ok_iff.mp hOwn
      rw [List.flatten_cons, List.flatMap_cons, hFind, mapM_placeEntity hPlaced, ih others hOthers]

/-- What is seen in a region is what one of the finders finds there. -/
theorem mem_seen_iff {region : Span} {placed : Placed} :
    placed ∈ setup.seen region ↔
      ∃ finder ∈ setup.finders, ∃ entities, finder.find setup.source region = .ok entities ∧
        ∃ entity ∈ entities, entity.placed? = some placed := by
  constructor
  · intro h
    obtain ⟨finder, hFinder, h⟩ := List.mem_flatMap.mp h
    split at h
    · rename_i entities hFind
      exact ⟨finder, hFinder, entities, hFind, List.mem_filterMap.mp h⟩
    · simp at h
  · rintro ⟨finder, hFinder, entities, hFind, hEntity⟩
    apply List.mem_flatMap.mpr
    refine ⟨finder, hFinder, ?_⟩
    rw [hFind]
    exact List.mem_filterMap.mpr hEntity

/-- What is seen in a region starts inside it. -/
theorem mem_seen (hInside : setup.FindsInside) {region : Span} {placed : Placed}
    (h : placed ∈ setup.seen region) :
    placed.item.isEntity = true ∧ region.start ≤ placed.offset ∧ placed.offset < region.stop := by
  obtain ⟨finder, hFinder, entities, hFind, entity, hEntity, hPlaced⟩ := mem_seen_iff.mp h
  obtain ⟨span, hSpan, hStart, hStop⟩ := hInside finder hFinder region entities hFind entity hEntity
  simp only [Entity.placed?, hSpan, Option.map_some, Option.some.injEq] at hPlaced
  subst hPlaced
  exact ⟨rfl, hStart, hStop⟩

/-- An entity among the items of a part is seen there. -/
theorem mem_seen_of_mem_itemsOf {part : Part} {placed : Placed} (h : placed ∈ setup.itemsOf part)
    (hEntity : placed.item.isEntity = true) : placed ∈ setup.seen part.region := by
  cases part with
  | topLevel region => exact h
  | branch scope outermost =>
      simp only [itemsOf] at h
      split at h
      · exact h
      · simp only [List.cons_append, List.mem_cons, List.mem_append, List.not_mem_nil,
          or_false] at h
        rcases h with rfl | h | rfl
        · cases hEntity
        · exact h
        · cases hEntity

/-- An empty region shows nothing. -/
theorem seen_eq_nil (hInside : setup.FindsInside) {region : Span}
    (h : region.stop ≤ region.start) : setup.seen region = [] := by
  apply List.eq_nil_iff_forall_not_mem.mpr
  intro placed hMem
  obtain ⟨_, hStart, hStop⟩ := mem_seen hInside hMem
  omega

/-- What is found in a part, unless a finder fails there. -/
theorem items_eq (hInside : setup.FindsInside) {part : Part} {found : List Placed}
    (h : setup.items part = .ok found) : found = setup.itemsOf part := by
  cases part with
  | topLevel region =>
      simp only [items] at h
      split at h
      · exact look_eq_seen h
      · rename_i hEmpty
        cases h
        exact (seen_eq_nil hInside (Nat.le_of_not_lt hEmpty)).symm
  | branch scope outermost =>
      obtain ⟨entities, hLook, rfl⟩ := map_eq_ok_iff.mp h
      obtain rfl := look_eq_seen hLook
      by_cases hOutermost : setup.unguardedOutermost ∧ outermost
      · simp [itemsOf, hOutermost]
      · by_cases hNone : setup.seen scope.region = []
        · simp [itemsOf, guarded, hNone]
        · simp [itemsOf, guarded, hNone, hOutermost, Scope.openingLine, Scope.closingLine]

theorem gather_eq (hInside : setup.FindsInside) {parts : List Part} {found : List Placed}
    (h : setup.gather parts = .ok found) : found = parts.flatMap setup.itemsOf := by
  induction parts generalizing found with
  | nil =>
      cases h
      rfl
  | cons part rest ih =>
      obtain ⟨own, hOwn, h⟩ := bind_eq_ok_iff.mp h
      obtain ⟨others, hOthers, rfl⟩ := map_eq_ok_iff.mp h
      rw [List.flatMap_cons, items_eq hInside hOwn, ih hOthers]

end Setup

/-! ## Calls that succeed -/

namespace Setup

variable {setup : Setup}

theorem exists_look (hInside : setup.FindsInside) (region : Span)
    (hCalls : ∀ finder ∈ setup.finders, ∃ entities,
      finder.find setup.source region = .ok entities) : ∃ found, setup.look region = .ok found := by
  have hPlaced : ∀ finder ∈ setup.finders,
      ∃ own, placedBy setup.source region finder = .ok own := by
    intro finder hFinder
    obtain ⟨entities, hFind⟩ := hCalls finder hFinder
    have hPlaces : ∀ entity ∈ entities, ∃ placed, placeEntity entity = .ok placed := by
      intro entity hEntity
      obtain ⟨span, hSpan, _⟩ := hInside finder hFinder region entities hFind entity hEntity
      exact ⟨_, placeEntity_eq_ok_iff.mpr (by rw [Entity.placed?, hSpan, Option.map_some])⟩
    rw [placedBy, hFind]
    exact exists_mapM_eq_ok hPlaces
  obtain ⟨lists, hLists⟩ := exists_mapM_eq_ok hPlaced
  refine ⟨lists.flatten, ?_⟩
  rw [look, hLists]
  rfl

theorem exists_items (hInside : setup.FindsInside) {part : Part}
    (hCalls : part.IsLookedAt → ∀ finder ∈ setup.finders, ∃ entities,
      finder.find setup.source part.region = .ok entities) :
    ∃ found, setup.items part = .ok found := by
  cases part with
  | topLevel region =>
      by_cases hText : region.start < region.stop
      · obtain ⟨found, hFound⟩ := exists_look hInside region (hCalls hText)
        exact ⟨found, by rw [items, if_pos hText]; exact hFound⟩
      · exact ⟨[], by rw [items, if_neg hText]⟩
  | branch scope outermost =>
      obtain ⟨found, hFound⟩ := exists_look hInside scope.region (hCalls trivial)
      exact ⟨_, by rw [items, hFound]; rfl⟩

/-- Whether no call fails can be tried out. -/
theorem callsSucceed_of_all
    (h : ((State.initial.outline.parts setup.source
      (Conditional.directiveLines setup.source)).all fun part =>
        setup.finders.all fun finder =>
          (finder.find setup.source part.region).toOption.isSome) = true) :
    setup.CallsSucceed := by
  intro part hPart _ finder hFinder
  have hSome := List.all_eq_true.mp (List.all_eq_true.mp h part hPart) finder hFinder
  cases hFind : finder.find setup.source part.region with
  | ok entities => exact ⟨entities, rfl⟩
  | error fault =>
      rw [hFind] at hSome
      cases hSome

/-- Where no call fails, something is found in all parts, if only nothing at all. -/
theorem exists_gather (hInside : setup.FindsInside) (hCalls : setup.CallsSucceed) :
    ∃ found, setup.gather (State.initial.outline.parts setup.source
      (Conditional.directiveLines setup.source)) = .ok found := by
  unfold CallsSucceed at hCalls
  generalize State.initial.outline.parts setup.source
    (Conditional.directiveLines setup.source) = parts at hCalls
  induction parts with
  | nil => exact ⟨[], rfl⟩
  | cons part rest ih =>
      obtain ⟨own, hOwn⟩ := exists_items hInside (hCalls part (by simp))
      obtain ⟨others, hOthers⟩ := ih fun other hOther => hCalls other (by simp [hOther])
      refine ⟨own ++ others, ?_⟩
      rw [gather, hOwn, hOthers]
      rfl

/-- Where something is found in all parts, no call has failed. -/
theorem exists_find_of_gather {parts : List Part} {found : List Placed}
    (h : setup.gather parts = .ok found) {part : Part} (hPart : part ∈ parts)
    (hLookedAt : part.IsLookedAt) {finder : Finder} (hFinder : finder ∈ setup.finders) :
    ∃ entities, finder.find setup.source part.region = .ok entities := by
  induction parts generalizing found with
  | nil => simp at hPart
  | cons first rest ih =>
      obtain ⟨own, hOwn, h⟩ := bind_eq_ok_iff.mp h
      obtain ⟨others, hOthers, _⟩ := map_eq_ok_iff.mp h
      rcases List.mem_cons.mp hPart with rfl | hPart
      · have hLook : ∃ own, setup.look part.region = .ok own := by
          cases part with
          | topLevel region => exact ⟨own, (if_pos hLookedAt).symm.trans hOwn⟩
          | branch scope outermost =>
              obtain ⟨entities, hEntities, _⟩ := map_eq_ok_iff.mp hOwn
              exact ⟨entities, hEntities⟩
        obtain ⟨own, hOwn⟩ := hLook
        obtain ⟨lists, hLists, _⟩ := map_eq_ok_iff.mp hOwn
        obtain ⟨placed, _, hPlaced⟩ := exists_mem_of_mapM hLists hFinder
        obtain ⟨entities, hFind, _⟩ := bind_eq_ok_iff.mp hPlaced
        exact ⟨entities, hFind⟩
      · exact ih hOthers hPart

end Setup

/-! ## Where the items stand -/

/-- The items of a part stand between its ends. -/
theorem Setup.mem_items {setup : Setup} (hInside : setup.FindsInside) {part : Part}
    (hFits : part.Fits setup.source) {found : List Placed} (h : setup.items part = .ok found)
    {placed : Placed} (hPlaced : placed ∈ found) :
    part.start ≤ placed.offset ∧ placed.offset < part.stop := by
  obtain rfl := items_eq hInside h
  have hSeen : placed ∈ setup.seen part.region →
      part.region.start ≤ placed.offset ∧ placed.offset < part.region.stop :=
    fun hMem => (mem_seen hInside hMem).2
  have hOrder := hFits.start_le_stop
  cases part with
  | topLevel region => exact hSeen hPlaced
  | branch scope outermost =>
      have hOpened := hFits.start_le_region
      simp only [Part.start, Part.region, Scope.region] at hSeen hOrder hOpened
      simp only [Part.start, Part.stop]
      simp only [itemsOf] at hPlaced
      split at hPlaced
      · have hMem := hSeen hPlaced
        omega
      · simp only [List.cons_append, List.mem_cons, List.mem_append, List.not_mem_nil,
          or_false] at hPlaced
        rcases hPlaced with rfl | hPlaced | rfl
        · simp only [Scope.openingLine]
          omega
        · have hMem := hSeen hPlaced
          omega
        · simp only [Scope.closingLine]
          omega

/-- What is gathered from some parts stands between the ends of one of them. -/
theorem Setup.exists_part_of_mem_gather {setup : Setup} (hInside : setup.FindsInside)
    {parts : List Part} (hFits : ∀ part ∈ parts, part.Fits setup.source) {found : List Placed}
    (h : setup.gather parts = .ok found) {placed : Placed} (hPlaced : placed ∈ found) :
    ∃ part ∈ parts, part.start ≤ placed.offset ∧ placed.offset < part.stop := by
  induction parts generalizing found with
  | nil =>
      cases h
      simp at hPlaced
  | cons part rest ih =>
      obtain ⟨own, hOwn, h⟩ := bind_eq_ok_iff.mp h
      obtain ⟨others, hOthers, rfl⟩ := map_eq_ok_iff.mp h
      rcases List.mem_append.mp hPlaced with hMem | hMem
      · exact ⟨part, by simp, mem_items hInside (hFits part (by simp)) hOwn hMem⟩
      · obtain ⟨other, hOther, hBetween⟩ :=
          ih (fun other hOther => hFits other (by simp [hOther])) hOthers hMem
        exact ⟨other, by simp [hOther], hBetween⟩

/-! ## An example -/

/-- Finds an enumeration at the first byte of every region that is not empty. -/
def firstByte : Finder where
  name := "first".toList
  find _ region :=
    .ok (if region.start < region.stop then
      [.enumeration ⟨"first".toList, "first".toList, [], ⟨region.start, region.start + 1⟩⟩]
    else [])

/-- A source with an `#else` branch inside another block, looked at by two equal finders. -/
def Setup.nested : Setup where
  source := "#if A\nx\n#ifdef B\ny\n#else\nz\n#endif\n#endif\n".toList
  finders := [firstByte, firstByte]
  unguardedOutermost := false

theorem eq_firstByte {finder : Finder} (h : finder ∈ Setup.nested.finders) :
    finder = firstByte := by
  have hFinders : Setup.nested.finders = [firstByte, firstByte] := rfl
  rw [hFinders] at h
  simpa using h

theorem findsInside_nested : Setup.nested.FindsInside := by
  intro finder hFinder region entities hFind entity hEntity
  obtain rfl := eq_firstByte hFinder
  by_cases hEmpty : region.start < region.stop
  · simp only [firstByte, if_pos hEmpty, Except.ok.injEq] at hFind
    subst hFind
    obtain rfl := List.mem_singleton.mp hEntity
    exact ⟨_, rfl, Nat.le_refl _, hEmpty⟩
  · simp only [firstByte, if_neg hEmpty, Except.ok.injEq] at hFind
    subst hFind
    simp at hEntity

theorem findsEverywhere_nested : Setup.nested.FindsEverywhere := by
  intro finder hFinder region text _
  obtain rfl := eq_firstByte hFinder
  exact ⟨_, rfl⟩

end Scan

end ValueNames
