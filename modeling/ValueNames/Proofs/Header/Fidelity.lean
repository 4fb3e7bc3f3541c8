import ValueNames.Proofs.Header.Acceptance
import ValueNames.Proofs.Scan.Around

/-!
# The guards around an enumeration

The function generated for an enumeration stands between the guard lines of the
scopes that hold its declaration. This needs that guards are written at all levels,
and that no scope straddles the declaration.

## Main results

* `declaredAt_of_mem_ordered` — an enumeration of a header is declared where it stands.
* `around_of_clear` — the pairs of guard lines around an enumeration are those of the
  scopes that hold its declaration.
-/

namespace ValueNames

open Scan Conditional

namespace ScannedHeader

variable {raw : Text} {settings : Settings} {finders : List Finder} {forest : Forest}

/-- An enumeration found in a part of a header is declared where it stands. -/
theorem declaredAt_of_mem_seen (hFinders : settings.finders = .ok finders) {part : Part}
    (hFits : part.Fits (Comment.strip raw)) {offset : Nat} {declared : Enumeration}
    (h : ⟨offset, .entity (.enumeration declared)⟩ ∈
      (settings.setup finders raw).seen part.region) :
    offset = declared.span.start ∧
      Enumeration.DeclaredAt (Comment.strip raw) declared.span := by
  obtain ⟨finder, hFinder, entities, hFind, entity, hEntity, hPlaced⟩ :=
    Setup.mem_seen_iff.mp h
  obtain ⟨span, hSpan, hSame⟩ := Option.map_eq_some_iff.mp hPlaced
  obtain ⟨rfl, rfl⟩ : span.start = offset ∧ entity = .enumeration declared := by
    simpa using hSame
  obtain ⟨macros, hMacros, rfl⟩ := map_eq_ok_iff.mp hFinders
  have hKinds : finder = Finder.enumerations ∨ finder = macros := by
    simpa [Settings.setup] using hFinder
  rcases hKinds with rfl | rfl
  · obtain ⟨own, hOwn, hDeclared⟩ :=
      Finder.declaredAt_of_enumerations hFits.start hFind hEntity
    cases hOwn
    cases hSpan
    exact ⟨rfl, hDeclared⟩
  · obtain ⟨group, _, _, _, hGroup, _⟩ := Finder.exists_span_of_macroGroup hMacros hFind hEntity
    cases hGroup

/-- The parts of a header are pieces of its source. -/
theorem fits_of_mem_parts {source : Text} (hForest : Forest.IsOf (directiveLines source) forest)
    {part : Part} (hPart : part ∈ forest.parts source 0 none) : part.Fits source := by
  rw [← Outline.parts_eq_of_isOf hForest] at hPart
  exact Outline.fits_of_mem_parts Outline.fits_initial (spaced_directiveLines source)
    (Nat.zero_le _) hPart

/-- An enumeration among the items of a header is declared where it stands. -/
theorem declaredAt_of_mem_ordered (hFinders : settings.finders = .ok finders)
    (hForest : Forest.IsOf (directiveLines (Comment.strip raw)) forest) {offset : Nat}
    {declared : Enumeration}
    (h : ⟨offset, .entity (.enumeration declared)⟩ ∈
      Placed.ordered ((forest.parts (Comment.strip raw) 0 none).flatMap
        (settings.setup finders raw).itemsOf)) :
    offset = declared.span.start ∧
      Enumeration.DeclaredAt (Comment.strip raw) declared.span := by
  obtain ⟨part, hPart, hMem⟩ := List.mem_flatMap.mp (Placed.mem_of_mem_ordered h)
  exact declaredAt_of_mem_seen hFinders (fits_of_mem_parts hForest hPart)
    (Setup.mem_seen_of_mem_itemsOf hMem rfl)

/-- Where all calls have succeeded, something is seen in every scope that holds a declaration. -/
theorem seen_ne_nil_of_covers (hFinders : settings.finders = .ok finders) {found : List Placed}
    (hFound : (settings.setup finders raw).gather
      (forest.parts (Comment.strip raw) 0 none) = .ok found)
    {scope : Scope} (hScope : scope ∈ forest.scopes) {span : Span}
    (hDeclared : Enumeration.DeclaredAt (Comment.strip raw) span)
    (hCovers : scope.covers span = true) :
    (settings.setup finders raw).seen scope.region ≠ [] := by
  obtain ⟨hStart, hStop⟩ := Scope.covers_iff.mp hCovers
  obtain ⟨level, hPart⟩ := Forest.exists_mem_parts hScope (Comment.strip raw) 0 none
  have hFinder : Finder.enumerations ∈ (settings.setup finders raw).finders := by
    obtain ⟨macros, _, rfl⟩ := map_eq_ok_iff.mp hFinders
    exact List.mem_cons_self
  obtain ⟨entities, hFind⟩ := Setup.exists_find_of_gather hFound hPart trivial hFinder
  have hSome : entities ≠ [] := Finder.enumerations_ne_nil hDeclared hStart hStop hFind
  obtain ⟨entity, hEntity⟩ := List.exists_mem_of_ne_nil _ hSome
  have hInside : (settings.setup finders raw).FindsInside := findsInside_finders hFinders _ _
  obtain ⟨own, hOwn, _⟩ := hInside _ hFinder _ _ hFind entity hEntity
  have hPlaced : entity.placed? = some ⟨own.start, .entity entity⟩ := by
    rw [Entity.placed?, hOwn, Option.map_some]
  have hSeen : ⟨own.start, .entity entity⟩ ∈ (settings.setup finders raw).seen scope.region :=
    Setup.mem_seen_iff.mpr ⟨_, hFinder, entities, hFind, entity, hEntity, hPlaced⟩
  exact List.ne_nil_of_mem hSeen

/-- No scope begins or ends where a declaration stands. -/
theorem start_ne_of_declaredAt {source : Text}
    (hForest : Forest.IsOf (directiveLines source) forest) {span : Span}
    (hDeclared : Enumeration.DeclaredAt source span) :
    ∀ scope ∈ forest.scopes,
      span.start ≠ scope.block.opened.start ∧ span.start ≠ scope.closedAt := by
  intro scope hScope
  have hStands := (spaced_directiveLines source).standsIn
  obtain ⟨⟨opening, hOpening, hOpened⟩, closing, hClosing, hClosed⟩ :=
    hForest.lines_of_mem_scopes (by simp) (List.Subset.refl _) hScope
  constructor
  · rw [← hOpened]
    exact hDeclared.start_ne_of_standsIn (hStands opening hOpening)
  · rw [← hClosed]
    exact hDeclared.start_ne_of_standsIn (hStands closing hClosing)

/-- With guards at all levels, the scopes around a declaration have guard lines. -/
theorem meets_of_clear (hGuarded : settings.unguardedOutermost = false)
    (hFinders : settings.finders = .ok finders)
    (hForest : Forest.IsOf (directiveLines (Comment.strip raw)) forest) {found : List Placed}
    (hFound : (settings.setup finders raw).gather
      (forest.parts (Comment.strip raw) 0 none) = .ok found)
    {declared : Enumeration} (hDeclared : Enumeration.DeclaredAt (Comment.strip raw) declared.span)
    (hAround : forest.enclosing declared.span.start = forest.covering declared.span) :
    forest.Meets (settings.setup finders raw).guards
      ⟨declared.span.start, .entity (.enumeration declared)⟩ where
  isEntity := rfl
  apart := start_ne_of_declaredAt hForest hDeclared
  kept := by
    intro scope hScope hEncloses outermost
    have hMem : scope ∈ forest.covering declared.span := by
      rw [← hAround]
      exact List.mem_filter.mpr ⟨hScope, hEncloses⟩
    have hSome := seen_ne_nil_of_covers hFinders hFound hScope hDeclared (List.mem_filter.mp hMem).2
    have hAll : (settings.setup finders raw).unguardedOutermost = false := hGuarded
    rw [Setup.guards, hAll, decide_eq_true hSome]
    rfl

/--
The pairs of guard lines around an enumeration, outermost first, are those of the scopes that
hold its declaration, if guards are written at all levels and no scope straddles it.
-/
theorem around_of_clear (hGuarded : settings.unguardedOutermost = false)
    (hFinders : settings.finders = .ok finders)
    (hForest : Forest.IsOf (directiveLines (Comment.strip raw)) forest) {found : List Placed}
    (hFound : (settings.setup finders raw).gather
      (forest.parts (Comment.strip raw) 0 none) = .ok found)
    {before after : List Placed} {offset : Nat} {declared : Enumeration}
    (hSplit : Placed.ordered ((forest.parts (Comment.strip raw) 0 none).flatMap
      (settings.setup finders raw).itemsOf) =
        before ++ ⟨offset, .entity (.enumeration declared)⟩ :: after)
    (hClear : ∀ scope ∈ forest.scopes, scope.Clear declared.span) :
    forest.enclosing declared.span.start = forest.covering declared.span ∧
      Item.Around (before.map (·.item))
        ((forest.covering declared.span).map (·.block.guard)) (after.map (·.item)) := by
  have hInside : (settings.setup finders raw).FindsInside := findsInside_finders hFinders _ _
  obtain ⟨high, hWithin⟩ := hForest.within
  have hMem : ⟨offset, .entity (.enumeration declared)⟩ ∈
      Placed.ordered ((forest.parts (Comment.strip raw) 0 none).flatMap
        (settings.setup finders raw).itemsOf) := by
    rw [hSplit]
    exact List.mem_append_right _ List.mem_cons_self
  obtain ⟨rfl, hDeclared⟩ := declaredAt_of_mem_ordered hFinders hForest hMem
  have hAround : forest.enclosing declared.span.start = forest.covering declared.span :=
    hWithin.enclosing_eq_covering hDeclared.start_lt_stop hClear fun scope hScope =>
      (start_ne_of_declaredAt hForest hDeclared scope hScope).2
  have hMeets := meets_of_clear hGuarded hFinders hForest hFound hDeclared hAround
  have hPairs := around_ordered_parts hInside hWithin hMeets hSplit
  rw [hAround] at hPairs
  exact ⟨hAround, hPairs⟩

end ScannedHeader

end ValueNames
