import ValueNames.Proofs.Header.Groups

/-!
# Which enumerations a header keeps

An enumeration inside a block is found again in every part around the block, and
only one of the finds is kept. A declaration is read off its own text, so it does
not matter which one: all finds at one offset are the same enumeration, and no
macro group begins where a declaration does.

## Main results

* `eq_of_mem_seen` — where an enumeration stands, every part that has an entity
  has this enumeration.
* `enumerations_of_ofText` — a header has the enumerations of all its parts, each of
  them once.
-/

namespace ValueNames

open Scan Conditional MacroGroup

namespace Placed

/-- The enumeration that a placed item is, if it is one. -/
def enumeration? (placed : Placed) : Option Enumeration :=
  match placed.item with
  | .entity (.enumeration declared) => some declared
  | _ => none

/-- The enumerations among some items, in order. -/
def enumerations (items : List Placed) : List Enumeration := items.filterMap enumeration?

theorem enumeration?_eq_some_iff {placed : Placed} {declared : Enumeration} :
    placed.enumeration? = some declared ↔ placed.item = .entity (.enumeration declared) := by
  unfold enumeration?
  split
  · rename_i own hOwn
    simp [hOwn]
  · rename_i hOther
    simp only [reduceCtorEq, false_iff]
    exact hOther declared

theorem mem_enumerations_iff {items : List Placed} {declared : Enumeration} :
    declared ∈ enumerations items ↔
      ∃ offset, ⟨offset, .entity (.enumeration declared)⟩ ∈ items := by
  rw [enumerations, List.mem_filterMap]
  constructor
  · rintro ⟨⟨offset, item⟩, hPlaced, hDeclared⟩
    obtain rfl : item = .entity (.enumeration declared) := enumeration?_eq_some_iff.mp hDeclared
    exact ⟨offset, hPlaced⟩
  · rintro ⟨offset, hPlaced⟩
    exact ⟨_, hPlaced, rfl⟩

end Placed

namespace ScannedHeader

variable {raw : Text} {settings : Settings} {finders : List Finder} {forest : Forest}

/-! ## Enumerations of a part -/

/-- What is seen of enumerations in a region is what their finder finds there. -/
theorem mem_seen_enumeration_iff (hFinders : settings.finders = .ok finders) {region : Span}
    {offset : Nat} {declared : Enumeration} :
    ⟨offset, .entity (.enumeration declared)⟩ ∈ (settings.setup finders raw).seen region ↔
      offset = declared.span.start ∧
        ∃ entities, Finder.enumerations.find (Comment.strip raw) region = .ok entities ∧
          .enumeration declared ∈ entities := by
  obtain ⟨macros, hMacros, rfl⟩ := map_eq_ok_iff.mp hFinders
  rw [Setup.mem_seen_iff]
  constructor
  · rintro ⟨finder, hFinder, entities, hFind, entity, hEntity, hPlaced⟩
    obtain ⟨span, hSpan, hSame⟩ := Option.map_eq_some_iff.mp hPlaced
    obtain ⟨rfl, rfl⟩ : span.start = offset ∧ entity = .enumeration declared := by
      simpa using hSame
    have hKinds : finder = Finder.enumerations ∨ finder = macros := by
      simpa [Settings.setup] using hFinder
    rcases hKinds with rfl | rfl
    · cases hSpan
      exact ⟨rfl, entities, hFind, hEntity⟩
    · obtain ⟨_, _, _, _, hOther, _⟩ := Finder.exists_span_of_macroGroup hMacros hFind hEntity
      cases hOther
  · rintro ⟨rfl, entities, hFind, hEntity⟩
    exact ⟨Finder.enumerations, by simp [Settings.setup], entities, hFind, _, hEntity, rfl⟩

/-- An enumeration seen in a part is that of the declaration where it stands. -/
theorem exists_readsAt_of_mem_seen (hScans : settings.Scans raw finders forest) {part : Part}
    (hPart : part ∈ forest.parts (Comment.strip raw) 0 none) {offset : Nat}
    {declared : Enumeration}
    (hSeen : ⟨offset, .entity (.enumeration declared)⟩ ∈
      (settings.setup finders raw).seen part.region) :
    ∃ found span, Enumeration.ReadsAt (Comment.strip raw) found span ∧ span.start = offset ∧
      Enumeration.ofParts found.tag found.body found.typedefName span = .ok declared := by
  obtain ⟨rfl, entities, hFind, hEntity⟩ := (mem_seen_enumeration_iff hScans.finders_eq).mp hSeen
  obtain ⟨found, span, own, hReads, hOwn, hParts⟩ := Finder.readsAt_of_enumerations
    (fits_of_mem_parts hScans.isOf hPart).start hFind hEntity
  cases hOwn
  exact ⟨found, span, hReads, by rw [Finder.span_of_ofParts hParts], hParts⟩

/-- Where an enumeration stands, every part that has an entity has this enumeration. -/
theorem eq_of_mem_seen (hScans : settings.Scans raw finders forest) {part other : Part}
    (hPart : part ∈ forest.parts (Comment.strip raw) 0 none)
    (hOther : other ∈ forest.parts (Comment.strip raw) 0 none) {offset : Nat}
    {declared : Enumeration}
    (hSeen : ⟨offset, .entity (.enumeration declared)⟩ ∈
      (settings.setup finders raw).seen part.region)
    {placed : Placed} (hPlaced : placed ∈ (settings.setup finders raw).seen other.region)
    (hOffset : placed.offset = offset) :
    placed = ⟨offset, .entity (.enumeration declared)⟩ := by
  have hInside : (settings.setup finders raw).FindsInside :=
    findsInside_finders hScans.finders_eq _ _
  obtain ⟨found, span, hReads, hStart, hParts⟩ := exists_readsAt_of_mem_seen hScans hPart hSeen
  obtain ⟨own, item⟩ := placed
  obtain rfl : own = offset := hOffset
  cases item with
  | guard line =>
      obtain ⟨hEntity, _⟩ := Setup.mem_seen hInside hPlaced
      cases hEntity
  | entity entity =>
      cases entity with
      | enumeration again =>
          obtain ⟨found', span', hReads', hStart', hParts'⟩ :=
            exists_readsAt_of_mem_seen hScans hOther hPlaced
          obtain ⟨rfl, rfl⟩ := hReads.unique hReads' (hStart.trans hStart'.symm)
          rw [hParts] at hParts'
          cases hParts'
          rfl
      | macroGroup group =>
          -- A group begins with the mark of a definition, a declaration with its keyword.
          obtain ⟨hGroup, hFirst⟩ := (mem_seen_group_iff hScans.finders_eq).mp hPlaced
          obtain ⟨first, _, hSpan, hDefined, _⟩ := exists_first_of_part hScans hOther hGroup
          have hSame : first.span.start = own := by
            rw [hSpan] at hFirst
            exact Option.some.inj hFirst
          exact absurd (hSame.trans hStart.symm)
            (hDefined.start_ne_of_declaredAt hReads.declaredAt)

/-! ## Enumerations among the items -/

/--
An enumeration of a part is among the items that are handed out, and no other
entity stands there.
-/
theorem mem_handsOut_of_enumeration (hScans : settings.Scans raw finders forest)
    {placed : Placed}
    (hPlaced : placed ∈ (forest.parts (Comment.strip raw) 0 none).flatMap
      (settings.setup finders raw).itemsOf)
    {declared : Enumeration} (hItem : placed.item = .entity (.enumeration declared)) :
    placed ∈ settings.handsOut raw finders forest ∧
      ∀ kept ∈ settings.handsOut raw finders forest, kept.item.isEntity = true →
        kept.offset = placed.offset → kept = placed := by
  obtain ⟨offset, item⟩ := placed
  obtain rfl : item = .entity (.enumeration declared) := hItem
  obtain ⟨part, hPart, hOwn⟩ := List.mem_flatMap.mp hPlaced
  have hSeen := Setup.mem_seen_of_mem_itemsOf hOwn rfl
  have hOnly : ∀ kept ∈ settings.handsOut raw finders forest, kept.item.isEntity = true →
      kept.offset = offset → kept = ⟨offset, .entity (.enumeration declared)⟩ := by
    intro kept hKept hEntity hOffset
    obtain ⟨other, hOther, hMem⟩ := List.mem_flatMap.mp (Placed.mem_of_mem_ordered hKept)
    exact eq_of_mem_seen hScans hPart hOther hSeen (Setup.mem_seen_of_mem_itemsOf hMem hEntity)
      hOffset
  obtain ⟨kept, hKept, hEntity, hOffset⟩ := Placed.exists_entity_ordered hPlaced rfl
  have hSame := hOnly kept hKept hEntity hOffset
  exact ⟨hSame ▸ hKept, hOnly⟩

/-- The enumerations handed out are those that their finder finds in the parts. -/
theorem mem_enumerations_handsOut_iff (hScans : settings.Scans raw finders forest)
    {declared : Enumeration} :
    declared ∈ Placed.enumerations (settings.handsOut raw finders forest) ↔
      ∃ part ∈ forest.parts (Comment.strip raw) 0 none, ∃ entities,
        Finder.enumerations.find (Comment.strip raw) part.region = .ok entities ∧
          .enumeration declared ∈ entities := by
  rw [Placed.mem_enumerations_iff]
  constructor
  · rintro ⟨offset, hItem⟩
    obtain ⟨part, hPart, hMem⟩ := List.mem_flatMap.mp (Placed.mem_of_mem_ordered hItem)
    have hSeen := Setup.mem_seen_of_mem_itemsOf hMem rfl
    exact ⟨part, hPart, ((mem_seen_enumeration_iff hScans.finders_eq).mp hSeen).2⟩
  · rintro ⟨part, hPart, hFound⟩
    have hSeen : ⟨declared.span.start, .entity (.enumeration declared)⟩ ∈
        (settings.setup finders raw).seen part.region :=
      (mem_seen_enumeration_iff hScans.finders_eq).mpr ⟨rfl, hFound⟩
    have hMem : ⟨declared.span.start, .entity (.enumeration declared)⟩ ∈
        (forest.parts (Comment.strip raw) 0 none).flatMap
          (settings.setup finders raw).itemsOf :=
      List.mem_flatMap.mpr ⟨part, hPart, mem_itemsOf_of_mem_seen hSeen⟩
    exact ⟨_, (mem_handsOut_of_enumeration hScans hMem rfl).1⟩

/-- The enumerations handed out stand one behind the other. -/
theorem pairwise_enumerations_handsOut (hScans : settings.Scans raw finders forest) :
    (Placed.enumerations (settings.handsOut raw finders forest)).Pairwise
      fun a b => a.span.start < b.span.start := by
  -- Every enumeration among the items stands at the start of its span.
  have hStart : ∀ offset declared, ⟨offset, .entity (.enumeration declared)⟩ ∈
      settings.handsOut raw finders forest → offset = declared.span.start := by
    intro offset declared hItem
    obtain ⟨part, _, hMem⟩ := List.mem_flatMap.mp (Placed.mem_of_mem_ordered hItem)
    exact ((mem_seen_enumeration_iff hScans.finders_eq).mp
      (Setup.mem_seen_of_mem_itemsOf hMem rfl)).1
  have hPairs : (settings.handsOut raw finders forest).Pairwise fun a b =>
      a.item.isEntity = true → b.item.isEntity = true → a.offset < b.offset :=
    Placed.pairwise_keepFirst (Placed.ascending_sorted _) none
  rw [Placed.enumerations, List.pairwise_filterMap]
  refine List.Pairwise.imp_of_mem ?_ hPairs
  rintro ⟨offset, item⟩ ⟨offset', item'⟩ hItem hItem' hLess declared hOwn declared' hOwn'
  obtain rfl : item = .entity (.enumeration declared) :=
    Placed.enumeration?_eq_some_iff.mp hOwn
  obtain rfl : item' = .entity (.enumeration declared') :=
    Placed.enumeration?_eq_some_iff.mp hOwn'
  rw [← hStart _ _ hItem, ← hStart _ _ hItem']
  exact hLess rfl rfl

/-- Where a scan has gone through, the enumerations of every part could be looked for. -/
theorem exists_enumerations_of_part (hScans : settings.Scans raw finders forest) {part : Part}
    (hPart : part ∈ forest.parts (Comment.strip raw) 0 none) :
    ∃ entities, Finder.enumerations.find (Comment.strip raw) part.region = .ok entities := by
  obtain ⟨found, hFound⟩ := hScans.gathered
  have hFinder : Finder.enumerations ∈ (settings.setup finders raw).finders := by
    obtain ⟨macros, _, rfl⟩ := map_eq_ok_iff.mp hScans.finders_eq
    exact List.mem_cons_self
  by_cases hLookedAt : part.IsLookedAt
  · exact Setup.exists_find_of_gather hFound hPart hLookedAt hFinder
  · -- Only a part without text is not looked at, and it has no declaration.
    have hFits := fits_of_mem_parts hScans.isOf hPart
    obtain ⟨text, hText⟩ := hFits.exists_text
    have hEmpty : text = [] := by
      obtain ⟨front, back, _, hFront, hSize⟩ :=
        Text.slice?_eq_some_iff.mp (regionText_eq_ok_iff.mp hText)
      have hStop : part.region.stop ≤ part.region.start := by
        cases part with
        | topLevel region => exact Nat.le_of_not_lt hLookedAt
        | branch scope outermost => exact absurd trivial hLookedAt
      exact Text.eq_nil_of_size_eq_zero (by omega)
    refine ⟨[], ?_⟩
    show (regionText _ _).bind _ = _
    rw [hText, hEmpty]
    show (Enumeration.declaration.search []).mapM _ = _
    rw [Recogniser.search_nil]
    rfl

/--
The enumerations of a header are exactly those found in the parts of its source,
each of them once. What is found in the parts is ordered, and where this drops an
enumeration, the entity that is kept at its offset is the same enumeration.
-/
theorem enumerations_of_ofText {header : ScannedHeader} (h : ofText raw settings = .ok header) :
    header.source = Comment.strip raw ∧
      ∃ finders forest, settings.finders = .ok finders ∧
        Forest.IsOf (directiveLines header.source) forest ∧
        (∀ part ∈ forest.parts header.source 0 none, ∃ entities,
          Finder.enumerations.find header.source part.region = .ok entities) ∧
        (∀ declared, declared ∈ Placed.enumerations header.items ↔
          ∃ part ∈ forest.parts header.source 0 none, ∃ entities,
            Finder.enumerations.find header.source part.region = .ok entities ∧
              .enumeration declared ∈ entities) ∧
        (Placed.enumerations header.items).Nodup ∧
        header.items = Placed.ordered ((forest.parts header.source 0 none).flatMap
          (settings.setup finders raw).itemsOf) ∧
        ∀ placed ∈ (forest.parts header.source 0 none).flatMap
            (settings.setup finders raw).itemsOf,
          ∀ declared, placed.item = .entity (.enumeration declared) →
            placed ∈ header.items ∧ ∀ kept ∈ header.items, kept.item.isEntity = true →
              kept.offset = placed.offset → kept = placed := by
  obtain ⟨finders, forest, hScans, rfl⟩ := exists_scans_of_ofText h
  refine ⟨rfl, finders, forest, hScans.finders_eq, hScans.isOf, ?_, ?_, ?_, rfl, ?_⟩
  · exact fun part hPart => exists_enumerations_of_part hScans hPart
  · exact fun declared => mem_enumerations_handsOut_iff hScans
  · refine (pairwise_enumerations_handsOut hScans).imp ?_
    rintro a b hLess rfl
    exact Nat.lt_irrefl _ hLess
  · exact fun placed hPlaced declared hItem => mem_handsOut_of_enumeration hScans hPlaced hItem

/-- A header with enumerations in both branches of a block inside another one. -/
def branching : Text :=
  "#ifdef A\n#if B\nenum x { a };\n#else\nenum y { b };\n#endif\n#endif\n".toList

/-- The enumeration in the `#else` branch. -/
def branchingEnumeration : Enumeration where
  name := "y".toList
  typeName := "enum y".toList
  body := [.member "b".toList]
  span := ⟨35, 48⟩

/-- The guards of the two blocks of that header. -/
def branchingOuter : Guard := ⟨.defined, "A".toList⟩

def branchingInner : Guard := ⟨.expression, "B".toList⟩

/-- Its items ahead of the enumeration in the `#else` branch. -/
def branchingBefore : List Placed :=
  [⟨0, .opening branchingOuter⟩, ⟨9, .opening branchingInner⟩,
    ⟨15, .entity (.enumeration ⟨"x".toList, "enum x".toList, [.member "a".toList], ⟨15, 28⟩⟩)⟩,
    ⟨29, .closing branchingInner⟩, ⟨29, .opening branchingInner.complement⟩]

/-- Its items behind that enumeration. -/
def branchingAfter : List Placed :=
  [⟨49, .closing branchingInner.complement⟩, ⟨56, .closing branchingOuter⟩]

/-- The items of that header. -/
def branchingItems : List Placed :=
  branchingBefore ++ ⟨35, .entity (.enumeration branchingEnumeration)⟩ :: branchingAfter

theorem ofText_branching : ofText branching {} = .ok ⟨Comment.strip branching, branchingItems⟩ := by
  obtain ⟨finders, hFinders⟩ : ∃ finders, ({} : Settings).finders = .ok finders :=
    exists_finders (by decide)
  -- The items of the inner block come first, and the enumerations are found in the outer one too.
  have hFound : (State.initial.outline.parts (Comment.strip branching)
      (directiveLines (Comment.strip branching))).flatMap
        (({} : Settings).setup finders branching).itemsOf =
      (branchingItems.drop 1).take 6 ++
        branchingItems.filter (fun placed => placed.item.isEntity || placed.offset == 0 ||
          placed.offset == 56) := by
    cases hFinders
    decide +kernel
  have hOrdered : Placed.ordered ((branchingItems.drop 1).take 6 ++
      branchingItems.filter (fun placed => placed.item.isEntity || placed.offset == 0 ||
        placed.offset == 56)) = branchingItems := by
    have hAscending : Placed.Ascending (branchingItems.flatMap fun placed =>
        if placed.item.isEntity then [placed, placed] else [placed]) := by
      unfold Placed.Ascending
      decide
    rw [Placed.ordered, Placed.sorted_eq_of_forall_mem hAscending (by decide)]
    decide
  rw [← hOrdered]
  refine ofText_of_found hFinders ?_ hFound
  cases hFinders
  decide +kernel

/--
In a header with two branches inside a block, the enumeration of the `#else` branch is
found for the branch and for the block, and is kept once.
-/
theorem enumerations_of_ofText_branching :
    ∃ header, ofText branching {} = .ok header ∧
      branchingEnumeration ∈ Placed.enumerations header.items ∧
      (Placed.enumerations header.items).Nodup ∧
      ∀ kept ∈ header.items, kept.item.isEntity = true → kept.offset = 35 →
        kept = ⟨35, .entity (.enumeration branchingEnumeration)⟩ := by
  obtain ⟨_, finders, forest, hFinders, hForest, _, _, hOnce, _, hKept⟩ :=
    enumerations_of_ofText ofText_branching
  have hPlaced : ⟨35, .entity (.enumeration branchingEnumeration)⟩ ∈
      (forest.parts (Comment.strip branching) 0 none).flatMap
        (({} : Settings).setup finders branching).itemsOf := by
    rw [← Outline.parts_eq_of_isOf hForest]
    cases hFinders
    decide +kernel
  obtain ⟨hItem, hOnly⟩ := hKept _ hPlaced branchingEnumeration rfl
  exact ⟨_, ofText_branching, Placed.mem_enumerations_iff.mpr ⟨35, hItem⟩, hOnce, hOnly⟩

end ScannedHeader

end ValueNames
