import ValueNames.Proofs.Header.Enumerations
import ValueNames.Proofs.Header.GroupGuards
import ValueNames.Proofs.Scan.Outermost

/-!
# Headers without the outermost guards

The settings may ask for the guards of outermost blocks to be left out. This
changes nothing but guard lines: the same headers are refused for the same reason,
and an accepted header has the same items without the guard lines at depth zero.

## Main results

* `seen_ne_nil_of_inside` — where something is seen in a scope, something is seen in
  the scopes around it.
* `ofText_unguarded` — leaving out the outermost guards takes away the guard lines at
  depth zero, and nothing else.
-/

namespace ValueNames

open Scan Conditional MacroGroup

/-- Settings that leave out the guards of outermost blocks. -/
def Settings.unguarded (settings : Settings) : Settings :=
  { settings with unguardedOutermost := true }

theorem Settings.finders_unguarded (settings : Settings) :
    settings.unguarded.finders = settings.finders := rfl

theorem Settings.setup_unguarded (settings : Settings) (finders : List Finder) (raw : Text) :
    settings.unguarded.setup finders raw = (settings.setup finders raw).unguarded := rfl

namespace ScannedHeader

variable {raw : Text} {settings : Settings} {finders : List Finder} {forest : Forest}

/-- What is seen in a part stands apart from the lines of the scopes. -/
theorem apart_of_mem_seen (hScans : settings.Scans raw finders forest) {part : Part}
    (hPart : part ∈ forest.parts (Comment.strip raw) 0 none) {placed : Placed}
    (hSeen : placed ∈ (settings.setup finders raw).seen part.region) : forest.Apart placed := by
  have hInside : (settings.setup finders raw).FindsInside :=
    findsInside_finders hScans.finders_eq _ _
  obtain ⟨offset, item⟩ := placed
  cases item with
  | guard line => cases (Setup.mem_seen hInside hSeen).1
  | entity entity =>
      cases entity with
      | enumeration declared =>
          obtain ⟨rfl, hDeclared⟩ := declaredAt_of_mem_seen hScans.finders_eq
            (fits_of_mem_parts hScans.isOf hPart) hSeen
          exact ⟨rfl, start_ne_of_declaredAt hScans.isOf hDeclared⟩
      | macroGroup group =>
          obtain ⟨hGroup, hStart⟩ := (mem_seen_group_iff hScans.finders_eq).mp hSeen
          obtain ⟨first, _, hSpan, hDefined, _⟩ := exists_first_of_part hScans hPart hGroup
          obtain rfl : first.span.start = offset := by
            rw [hSpan] at hStart
            exact Option.some.inj hStart
          exact apart_of_definedAt hScans.isOf hDefined _

/-- Where something is seen in a scope, something is seen in the scopes around it. -/
theorem seen_ne_nil_of_inside (hScans : settings.Scans raw finders forest) {outer inner : Scope}
    (hOuter : outer ∈ forest.scopes) (hInner : inner ∈ forest.scopes)
    (hIn : inner.region.Inside outer.region)
    (hSome : (settings.setup finders raw).seen inner.region ≠ []) :
    (settings.setup finders raw).seen outer.region ≠ [] := by
  have hInside : (settings.setup finders raw).FindsInside :=
    findsInside_finders hScans.finders_eq _ _
  obtain ⟨level, hPart⟩ := Forest.exists_mem_parts hInner (Comment.strip raw) 0 none
  obtain ⟨⟨offset, item⟩, hSeen⟩ := List.exists_mem_of_ne_nil _ hSome
  -- What lies in the inner scope lies in the outer one.
  have hCovers : ∀ span : Span, inner.region.start ≤ span.start →
      span.stop ≤ inner.region.stop → outer.covers span = true := fun span hStart hStop =>
    Scope.covers_iff.mpr ⟨Nat.le_trans (Nat.le_of_lt hIn.1) hStart, Nat.le_trans hStop hIn.2⟩
  cases item with
  | guard line => cases (Setup.mem_seen hInside hSeen).1
  | entity entity =>
      cases entity with
      | enumeration declared =>
          obtain ⟨_, hDeclared⟩ := declaredAt_of_mem_seen hScans.finders_eq
            (fits_of_mem_parts hScans.isOf hPart) hSeen
          obtain ⟨_, entities, hFind, hMem⟩ :=
            (mem_seen_enumeration_iff hScans.finders_eq).mp hSeen
          obtain ⟨hStart, hStop⟩ := Finder.inside_of_enumerations hFind hMem
          obtain ⟨found, hFound⟩ := hScans.gathered
          exact seen_ne_nil_of_covers hScans.finders_eq hFound hOuter hDeclared
            (hCovers _ hStart hStop)
      | macroGroup group =>
          obtain ⟨hGroup, _⟩ := (mem_seen_group_iff hScans.finders_eq).mp hSeen
          obtain ⟨first, _, _, hDefined, hStart, hStop⟩ :=
            exists_first_of_part hScans hPart hGroup
          obtain ⟨_, around, _, hAround, hOwn, _⟩ :=
            exists_group_of_covers hScans hDefined hOuter (hCovers _ hStart hStop)
          obtain ⟨at', hAt', _⟩ := start_of_group hScans hAround hOwn
          have hAlso : ⟨at', .entity (.macroGroup around)⟩ ∈
              (settings.setup finders raw).seen outer.region :=
            (mem_seen_group_iff hScans.finders_eq).mpr ⟨hOwn, hAt'⟩
          exact List.ne_nil_of_mem hAlso

/-- Leaving out the outermost guards takes guard lines from what a scan hands out. -/
theorem handsOut_unguarded (hGuarded : settings.unguardedOutermost = false)
    (hScans : settings.Scans raw finders forest) :
    settings.unguarded.handsOut raw finders forest =
      Placed.withoutOutermost 0 (settings.handsOut raw finders forest) := by
  obtain ⟨high, hWithin⟩ := hScans.isOf.within
  exact ordered_unguarded (findsInside_finders hScans.finders_eq _ _) hGuarded hWithin
    (fun part hPart placed hSeen => apart_of_mem_seen hScans hPart hSeen)
    (fun outer hOuter inner hInner hIn hSome =>
      seen_ne_nil_of_inside hScans hOuter hInner hIn hSome)

/-- Whether guards are left out makes no difference to whether and why a text is refused. -/
theorem ofText_unguarded_forget (raw : Text) (settings : Settings) :
    (ofText raw settings.unguarded).map (fun _ => ()) = (ofText raw settings).map fun _ => () := by
  cases hFinders : settings.finders with
  | error fault =>
      rw [ofText, ofText, Settings.finders_unguarded, hFinders]
      rfl
  | ok finders =>
      have hInside : (settings.setup finders raw).FindsInside := findsInside_finders hFinders _ _
      rw [ofText_eq hFinders, ofText_eq (settings.finders_unguarded.trans hFinders), map_forget,
        map_forget, Settings.setup_unguarded]
      exact collect_unguarded_forget hInside

/-- An accepted text gives the same header, without the guard lines at depth zero. -/
theorem eq_of_ofText_unguarded (hGuarded : settings.unguardedOutermost = false)
    {header unguarded : ScannedHeader} (h : ofText raw settings = .ok header)
    (hOther : ofText raw settings.unguarded = .ok unguarded) :
    unguarded = { header with items := Placed.withoutOutermost 0 header.items } := by
  obtain ⟨finders, forest, hScans, rfl⟩ := exists_scans_of_ofText h
  obtain ⟨finders', forest', hScans', rfl⟩ := exists_scans_of_ofText hOther
  obtain rfl : finders = finders' := by
    have hSame := hScans'.finders_eq
    rw [Settings.finders_unguarded, hScans.finders_eq] at hSame
    exact Except.ok.inj hSame
  obtain ⟨rfl, _⟩ := Forest.Reads.unique hScans.isOf hScans'.isOf
  rw [handsOut_unguarded hGuarded hScans]

/--
Leaving out the outermost guards changes nothing but guard lines. Two settings that
differ in this alone refuse the same texts for the same reason, and where they accept
a text, the header has the same source and the same items in the same order, without
the guard lines that no other pair of guard lines is around.
-/
theorem ofText_unguarded (raw : Text) (settings : Settings) :
    ofText raw { settings with unguardedOutermost := true } =
      (ofText raw { settings with unguardedOutermost := false }).map fun header =>
        { header with items := Placed.withoutOutermost 0 header.items } := by
  obtain ⟨guarded, hGuarded⟩ : ∃ guarded : Settings,
      { settings with unguardedOutermost := false } = guarded := ⟨_, rfl⟩
  have hOther : ({ settings with unguardedOutermost := true } : Settings) = guarded.unguarded := by
    rw [← hGuarded]
    rfl
  have hFlag : guarded.unguardedOutermost = false := by rw [← hGuarded]
  rw [hGuarded, hOther]
  exact eq_map_of_forget (ofText_unguarded_forget raw guarded)
    fun unguarded header hUnguarded hText => eq_of_ofText_unguarded hFlag hText hUnguarded

end ScannedHeader

end ValueNames
