import ValueNames.Header
import ValueNames.Proofs.Item.Shift
import ValueNames.Proofs.Text.Search

/-!
# Finders that look at nothing but their region

What a finder finds may depend on the whole source. The finders of a header look only at
the text of the region they are given. If this text stands further behind, so does what
they find, and a line feed more at its start makes no difference to them.

## Main results

* `Recogniser.search_newline` — a search does not see a line feed at the start of a text.
* `local_of_mem_finders`, `movable_of_mem_finders` — the finders of a header look at
  nothing but their region.
-/

namespace ValueNames

/-! ## Searches of a text that stands further behind -/

namespace Recogniser

variable {α : Type} (recogniser : Recogniser α)

theorem searchFrom_add (before : Option Char) (offset base : Nat) (s : Text) :
    recogniser.searchFrom before (offset + base) s =
      (recogniser.searchFrom before offset s).map fun (a, span) => (a, span.shift base) := by
  fun_induction searchFrom recogniser before offset s with
  | case1 before offset => rw [searchFrom, List.map_nil]
  | case2 before offset c s a rest hRead _ taken stop ih =>
      have hStop : offset + base + Text.size taken = stop + base := by omega
      rw [searchFrom]
      split
      · rename_i a' rest' hRead'
        rw [hRead, Option.some.injEq, Prod.mk.injEq] at hRead'
        obtain ⟨rfl, rfl⟩ := hRead'
        rw [List.map_cons, ← ih]
        show (a, Span.mk (offset + base) (offset + base + Text.size taken)) ::
          recogniser.searchFrom taken.getLast? (offset + base + Text.size taken) rest = _
        rw [hStop]
        rfl
      · rename_i hNone
        rw [hRead] at hNone
        cases hNone
  | case3 before offset c s hNone ih =>
      have hNext : offset + base + c.utf8Size = offset + c.utf8Size + base := by omega
      rw [searchFrom]
      split
      · rename_i hRead
        rw [hNone] at hRead
        cases hRead
      · rw [hNext, ih]

/-- A search may begin behind a character that stops nothing from being read. -/
theorem searchFrom_of_before {before before' : Option Char}
    (h : ∀ s, recogniser.read before s = recogniser.read before' s) (offset : Nat) (s : Text) :
    recogniser.searchFrom before offset s = recogniser.searchFrom before' offset s := by
  cases s with
  | nil => rw [searchFrom, searchFrom]
  | cons c s =>
      rw [searchFrom, searchFrom]
      split
      · rename_i a rest hRead
        rw [h] at hRead
        split
        · rename_i a' rest' hRead'
          rw [hRead, Option.some.injEq, Prod.mk.injEq] at hRead'
          obtain ⟨rfl, rfl⟩ := hRead'
          rfl
        · rename_i hNone
          rw [hRead] at hNone
          cases hNone
      · rename_i hNone
        rw [h] at hNone
        split
        · rename_i hRead
          rw [hNone] at hRead
          cases hRead
        · rfl

/-- A line feed at the start of a text is not seen if nothing begins with one or minds one. -/
theorem search_newline (hFirst : ∀ s, recogniser.read none ('\n' :: s) = none)
    (hBefore : ∀ s, recogniser.read (some '\n') s = recogniser.read none s) (s : Text) :
    recogniser.search ('\n' :: s) =
      (recogniser.search s).map fun (a, span) => (a, span.shift 1) := by
  have hOne : 0 + '\n'.utf8Size = 0 + 1 := rfl
  rw [search, searchFrom]
  split
  · rename_i hRead
    rw [hFirst] at hRead
    cases hRead
  · rw [searchFrom_of_before recogniser hBefore, hOne, searchFrom_add]
    rfl

/-- A search moves with the text, also behind a line feed that it does not see. -/
theorem search_gap (hFirst : ∀ s, recogniser.read none ('\n' :: s) = none)
    (hBefore : ∀ s, recogniser.read (some '\n') s = recogniser.read none s) {gap : Text}
    (hGap : gap = [] ∨ gap = ['\n']) (s : Text) :
    recogniser.search (gap ++ s) =
      (recogniser.search s).map fun (a, span) => (a, span.shift (Text.size gap)) := by
  rcases hGap with rfl | rfl
  · exact (List.map_id _).symm
  · exact recogniser.search_newline hFirst hBefore s

end Recogniser

/-! ## What a finder depends on -/

/-- Whether what a finder finds depends only on the text of the region and its place. -/
def Finder.Local (finder : Finder) : Prop :=
  ∀ source source' region text, regionText source region = .ok text →
    regionText source' region = .ok text → finder.find source region = finder.find source' region

/--
Whether what a finder finds moves with the text of the region. In the other source a line
feed may stand before the text.
-/
structure Finder.Movable (finder : Finder) : Prop where
  find_eq : ∀ {source source' text gap : Text} {region region' : Span} {base : Nat}
    (newlines : Nat), regionText source region = .ok text →
    regionText source' region' = .ok (gap ++ text) → gap = [] ∨ gap = ['\n'] →
    region'.start + Text.size gap = region.start + base →
    finder.find source' region' =
      shiftResult base newlines (List.map (Entity.shift base)) (finder.find source region)
  find_nil : ∀ {source : Text} {region : Span}, regionText source region = .ok [] →
    finder.find source region = .ok []

namespace Finder

/-! ## Enumerations -/

theorem ofParts_shift (base newlines : Nat) (tag body typedefName : Text) (span : Span) :
    Enumeration.ofParts tag body typedefName (span.shift base) =
      shiftResult base newlines (Enumeration.shift base)
        (Enumeration.ofParts tag body typedefName span) := by
  unfold Enumeration.ofParts
  split
  · rfl
  · split
    · rfl
    · split
      · rfl
      · rfl

theorem enumerationOf_shift {start start' base gap : Nat} (newlines : Nat)
    (hStart : start' + gap = start + base) (found : Enumeration.Declaration) (span : Span) :
    enumerationOf start' (found, span.shift gap) =
      shiftResult base newlines (Entity.shift base) (enumerationOf start (found, span)) := by
  have hSpan : (span.shift gap).shift start' = (span.shift start).shift base := by
    rw [Span.shift_shift, Span.shift_shift, Nat.add_comm gap, hStart]
  rw [enumerationOf, enumerationOf, hSpan, ofParts_shift base newlines]
  refine shiftResult_map base newlines ?_ _
  intro declared
  rfl

theorem local_enumerations : enumerations.Local := by
  intro source source' region text hText hText'
  simp only [enumerations, hText, hText']

theorem movable_enumerations : enumerations.Movable where
  find_eq := by
    intro source source' text gap region region' base newlines hText hText' hGap hStart
    have hSearch : Enumeration.declaration.search (gap ++ text) = _ :=
      Recogniser.search_gap _ (fun _ => rfl) (fun _ => rfl) hGap text
    show (regionText source' region').bind _ =
      shiftResult base newlines _ ((regionText source region).bind _)
    rw [hText, hText']
    show (Enumeration.declaration.search (gap ++ text)).mapM _ = _
    rw [hSearch]
    exact shiftResult_mapM base newlines fun find _ =>
      enumerationOf_shift newlines hStart find.1 find.2
  find_nil := by
    intro source region hText
    simp only [enumerations, hText]
    show (Enumeration.declaration.search []).mapM _ = _
    rw [Recogniser.search_nil]
    rfl

/-! ## Macro groups -/

theorem definitionsIn_shift (lead : Text) {start start' base : Nat} {gap : Text}
    (hGap : gap = [] ∨ gap = ['\n']) (hStart : start' + Text.size gap = start + base)
    (text : Text) :
    definitionsIn lead start' (gap ++ text) =
      (definitionsIn lead start text).map (MacroDefinition.shift base) := by
  have hSearch : (MacroGroup.definition lead).search (gap ++ text) = _ :=
    Recogniser.search_gap _ (fun _ => rfl) (fun _ => rfl) hGap text
  rw [definitionsIn, definitionsIn, hSearch, List.map_map, List.map_map]
  congr 1
  funext ⟨⟨name, value⟩, span⟩
  have hSpan : (span.shift (Text.size gap)).shift start' = (span.shift start).shift base := by
    rw [Span.shift_shift, Span.shift_shift, Nat.add_comm (Text.size gap), hStart]
  simp only [Function.comp_apply, hSpan, MacroDefinition.shift]

theorem ofDefinitions?_shift (lead : Text) (base : Nat) (definitions : List MacroDefinition) :
    MacroGroup.ofDefinitions? lead (definitions.map (MacroDefinition.shift base)) =
      (MacroGroup.ofDefinitions? lead definitions).map (MacroGroup.shift base) := by
  cases definitions with
  | nil => rfl
  | cons first rest => rfl

variable {lead : Text} {finder : Finder}

theorem local_macroGroup (h : macroGroup lead = .ok finder) : finder.Local := by
  unfold macroGroup at h
  split at h
  · cases h
  · cases h
    intro source source' region text hText hText'
    simp only [hText, hText']

theorem movable_macroGroup (h : macroGroup lead = .ok finder) : finder.Movable := by
  unfold macroGroup at h
  split at h
  · cases h
  · cases h
    constructor
    · intro source source' text gap region region' base newlines hText hText' hGap hStart
      simp only [hText, hText', Except.map, shiftResult,
        definitionsIn_shift lead hGap hStart, ofDefinitions?_shift]
      cases MacroGroup.ofDefinitions? lead (definitionsIn lead region.start text) with
      | none => rfl
      | some group => rfl
    · intro source region hText
      simp only [hText, Except.map, definitionsIn, Recogniser.search_nil]
      rfl

end Finder

/-! ## The finders of a header -/

section Header

variable {settings : Settings} {finders : List Finder} (h : settings.finders = .ok finders)

include h

/-- The finders of a header look only at the text of a region and its place. -/
theorem local_of_mem_finders : ∀ finder ∈ finders, finder.Local := by
  obtain ⟨macros, hMacros, rfl⟩ := map_eq_ok_iff.mp h
  intro finder hFinder
  rcases List.mem_cons.mp hFinder with rfl | hFinder
  · exact Finder.local_enumerations
  · obtain rfl := List.mem_singleton.mp hFinder
    exact Finder.local_macroGroup hMacros

/-- What the finders of a header find moves with the text. -/
theorem movable_of_mem_finders : ∀ finder ∈ finders, finder.Movable := by
  obtain ⟨macros, hMacros, rfl⟩ := map_eq_ok_iff.mp h
  intro finder hFinder
  rcases List.mem_cons.mp hFinder with rfl | hFinder
  · exact Finder.movable_enumerations
  · obtain rfl := List.mem_singleton.mp hFinder
    exact Finder.movable_macroGroup hMacros

end Header

end ValueNames
