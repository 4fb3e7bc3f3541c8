import ValueNames.Proofs.Finder
import ValueNames.Proofs.MacroGroup.Reading

/-!
# Where macro definitions are found

The macros found in a region make up one group. A definition that is found in a
part of a source can be read in the source where it stands, and every region
that holds it has a group, which begins there or before.

## Main results

* `definedAt_of_mem` — what is found in a part is defined in the source.
* `DefinedAt.exists_inRegion?` — a region that holds a definition has a group.
* `DefinedAt.start_ne_of_mem_directiveLines` — no directive line begins where a
  definition does.
-/

namespace ValueNames.MacroGroup

open Conditional

/-! ## The group of a region -/

/-- The group of the macros defined in a region of a source, if there are any. -/
def inRegion? (lead source : Text) (region : Span) : Option MacroGroup :=
  (Text.slice? source region.start region.stop).bind fun text =>
    ofDefinitions? lead (Finder.definitionsIn lead region.start text)

variable {lead source : Text} {region : Span} {group : MacroGroup}

/-- The finder of macros finds the group of every region that has a text. -/
theorem find_eq_inRegion? {finder : Finder} (hFinder : Finder.macroGroup lead = .ok finder)
    (source : Text) (region : Span) :
    finder.find source region = (regionText source region).map fun _ =>
      ((inRegion? lead source region).map Entity.macroGroup).toList := by
  unfold Finder.macroGroup at hFinder
  split at hFinder
  · cases hFinder
  · cases hFinder
    cases hText : Text.slice? source region.start region.stop with
    | none => simp only [regionText, hText, Except.map]
    | some text => simp only [regionText, inRegion?, hText, Except.map, Option.bind_some]

/-- A group is that of the definitions found in the text of the region. -/
theorem inRegion?_eq_some_iff :
    inRegion? lead source region = some group ↔
      ∃ text, Text.slice? source region.start region.stop = some text ∧
        Finder.definitionsIn lead region.start text ≠ [] ∧
        group = ⟨lead, Finder.definitionsIn lead region.start text⟩ := by
  unfold inRegion? ofDefinitions?
  rw [Option.bind_eq_some_iff]
  constructor
  · rintro ⟨text, hText, hGroup⟩
    split at hGroup
    · cases hGroup
    · rename_i hSome
      cases hGroup
      exact ⟨text, hText, hSome, rfl⟩
  · rintro ⟨text, hText, hSome, rfl⟩
    exact ⟨text, hText, if_neg hSome⟩

/-- A group has a first definition, and stands where that does. -/
theorem exists_first_of_inRegion? (h : inRegion? lead source region = some group) :
    ∃ first, group.definitions.head? = some first ∧ first ∈ group.definitions ∧
      group.span? = some first.span := by
  obtain ⟨text, _, hSome, rfl⟩ := inRegion?_eq_some_iff.mp h
  cases hList : Finder.definitionsIn lead region.start text with
  | nil => exact absurd hList hSome
  | cons first rest => exact ⟨first, rfl, by simp, rfl⟩

/-! ## Definitions and their places -/

/-- A definition can be read in a source where it stands. -/
def DefinedAt (lead source : Text) (defined : MacroDefinition) : Prop :=
  ∃ front taken back, source = front ++ (taken ++ back) ∧
    defined.span = ⟨Text.size front, Text.size front + Text.size taken⟩ ∧
    definitionAt? lead (taken ++ back) = some ((defined.name, defined.value), back)

variable {defined : MacroDefinition}

/-- A definition begins with its mark. -/
theorem DefinedAt.exists_mark (h : DefinedAt lead source defined) :
    ∃ front tail, source = front ++ ("#define".toList ++ tail) ∧
      defined.span.start = Text.size front ∧ defined.span.start < defined.span.stop := by
  obtain ⟨front, taken, back, rfl, hSpan, hRead⟩ := h
  obtain ⟨tail, hTail, _⟩ := definitionAt?_suffix hRead
  obtain ⟨own, hOwn, ⟨rest, hMark⟩, _⟩ := exists_taken_of_definitionAt? hRead
  obtain rfl := List.append_cancel_right hOwn
  have hPos : 0 < '#'.utf8Size := '#'.utf8Size_pos
  refine ⟨front, tail, by rw [hTail], by rw [hSpan], ?_⟩
  rw [hSpan, hMark]
  simp only [Text.size_cons]
  omega

theorem DefinedAt.start_lt_stop (h : DefinedAt lead source defined) :
    defined.span.start < defined.span.stop := by
  obtain ⟨_, _, _, _, hLess⟩ := h.exists_mark
  exact hLess

/--
Where a source is cut at the start of a line or at its end, but not behind a
line feed, nothing is cut off.
-/
theorem eq_nil_of_cut {front taken behind : Text} (hTaken : taken ≠ [])
    (hFeed : ∀ line, taken ≠ line ++ ['\n'])
    (hCut : Text.size (front ++ taken) = Text.size (front ++ taken ++ behind) ∨
      Text.IsLineStart (front ++ taken ++ behind) (Text.size (front ++ taken))) : behind = [] := by
  rcases hCut with hEnd | ⟨ahead, rest, hSplit, hAhead, hSize⟩
  · apply Text.eq_nil_of_size_eq_zero
    rw [Text.size_append (front ++ taken)] at hEnd
    omega
  · exfalso
    obtain ⟨hSame, _⟩ := Text.append_inj_of_size hSplit hSize.symm
    rcases hAhead with rfl | ⟨line, rfl⟩
    · exact hTaken (List.append_eq_nil_iff.mp hSame).2
    · rcases List.append_eq_append_iff.mp hSame with ⟨gap, _, hGap⟩ | ⟨gap, _, hGap⟩
      · exact hFeed gap hGap
      · cases gap with
        | nil => exact hFeed [] hGap.symm
        | cons c gap =>
            obtain ⟨_, hNone⟩ := List.cons.inj hGap
            exact hTaken (List.append_eq_nil_iff.mp hNone.symm).2

/-- What is found in a region that ends with a line of the source is defined in the source. -/
theorem definedAt_of_mem
    (hStop : region.stop = Text.size source ∨ Text.IsLineStart source region.stop)
    (h : inRegion? lead source region = some group) (hMem : defined ∈ group.definitions) :
    DefinedAt lead source defined ∧ region.start ≤ defined.span.start ∧
      defined.span.stop ≤ region.stop := by
  obtain ⟨text, hText, _, rfl⟩ := inRegion?_eq_some_iff.mp h
  obtain ⟨⟨⟨name, value⟩, span⟩, hFound, rfl⟩ := List.mem_map.mp hMem
  obtain ⟨ahead, behind, rfl, hAhead, hEnd⟩ := Text.slice?_eq_some_iff.mp hText
  obtain ⟨front, taken, back, rfl, rfl, hRead⟩ := Recogniser.exists_read_of_mem_search hFound
  obtain ⟨own, hOwn, ⟨tail, hMark⟩, hFeed, hBack, hAgain⟩ := exists_taken_of_definitionAt? hRead
  obtain rfl := List.append_cancel_right hOwn
  have hTaken : taken ≠ [] := by simp [hMark]
  have hBehind : back ++ behind = [] ∨ ∃ next, back ++ behind = '\n' :: next := by
    rcases hBack with rfl | ⟨next, rfl⟩
    · have hCut : Text.size (ahead ++ front ++ taken) =
            Text.size (ahead ++ front ++ taken ++ behind) ∨
          Text.IsLineStart (ahead ++ front ++ taken ++ behind)
            (Text.size (ahead ++ front ++ taken)) := by
        rw [← hEnd] at hStop
        simpa only [List.append_nil, List.append_assoc, Text.size_append, Nat.add_assoc] using hStop
      exact .inl (eq_nil_of_cut hTaken hFeed hCut)
    · exact .inr ⟨next ++ behind, rfl⟩
  refine ⟨⟨ahead ++ front, taken, back ++ behind, by simp, ?_, hAgain _ hBehind⟩, ?_, ?_⟩
  · simp only [Span.shift, Text.size_append, Span.mk.injEq]
    omega
  · simp only [Span.shift]
    omega
  · simp only [Span.shift, Text.size_append] at hEnd ⊢
    omega

/--
A region that holds a definition has a group, and the first definition of the
group stands there or before.
-/
theorem DefinedAt.exists_inRegion? (h : DefinedAt lead source defined) {text : Text}
    (hText : Text.slice? source region.start region.stop = some text)
    (hStart : region.start ≤ defined.span.start) (hStop : defined.span.stop ≤ region.stop) :
    ∃ group first, inRegion? lead source region = some group ∧
      group.definitions.head? = some first ∧ first.span.start ≤ defined.span.start := by
  obtain ⟨front, taken, back, hSource, hSpan, hRead⟩ := h
  obtain ⟨own, hOwn, _, _, hBack, hAgain⟩ := exists_taken_of_definitionAt? hRead
  obtain rfl := List.append_cancel_right hOwn
  rw [hSpan] at hStart hStop ⊢
  obtain ⟨ahead, middle, last, behind, rfl, hAhead, rfl, rfl⟩ :=
    Text.exists_around_of_slice? hSource hText hStart hStop
  have hLast : last = [] ∨ ∃ next, last = '\n' :: next := by
    cases last with
    | nil => exact .inl rfl
    | cons c last =>
        rcases hBack with hNone | ⟨next, hNext⟩
        · cases hNone
        · obtain ⟨rfl, _⟩ := List.cons.inj hNext
          exact .inr ⟨last, rfl⟩
  have hHere : (definition lead).read middle.getLast? (taken ++ last) =
      some ((defined.name, defined.value), last) := hAgain last hLast
  obtain ⟨find, hFind, hFirst⟩ := Recogniser.exists_head_search hHere
  have hHead : (Finder.definitionsIn lead region.start (middle ++ (taken ++ last))).head? =
      some ⟨find.1.1, find.1.2, find.2.shift region.start⟩ := by
    rw [Finder.definitionsIn, List.head?_map, hFind]
    rfl
  have hSome : Finder.definitionsIn lead region.start (middle ++ (taken ++ last)) ≠ [] := by
    intro hNone
    rw [hNone] at hHead
    cases hHead
  refine ⟨_, _, inRegion?_eq_some_iff.mpr ⟨_, hText, hSome, rfl⟩, hHead, ?_⟩
  simp only [Span.shift, Text.size_append]
  omega

/-! ## Definitions and other places -/

/-- No declaration of an enumeration begins where a definition does. -/
theorem DefinedAt.start_ne_of_declaredAt (h : DefinedAt lead source defined) {span : Span}
    (hDeclared : Enumeration.DeclaredAt source span) : defined.span.start ≠ span.start := by
  intro hSame
  obtain ⟨front, tail, hSource, hStart, _⟩ := h.exists_mark
  obtain ⟨front', tail', hSource', hStart', _⟩ := hDeclared.exists_keyword
  have hSize : Text.size front = Text.size front' := by
    rw [← hStart, ← hStart', hSame]
  obtain ⟨_, hTail⟩ := Text.append_inj_of_size (hSource.symm.trans hSource') hSize
  cases hTail

/-- A definition is no directive of a conditional block. -/
theorem lineAt?_define (offset : Nat) (tail : Text) :
    lineAt? offset ("#define".toList ++ tail) = none :=
  rfl

/-- No directive line begins where a definition does. -/
theorem DefinedAt.start_ne_of_mem_directiveLines (h : DefinedAt lead source defined)
    {line : DirectiveLine} (hLine : line ∈ directiveLines source) :
    defined.span.start ≠ line.span.start := by
  intro hSame
  obtain ⟨front, tail, hSource, hStart, _⟩ := h.exists_mark
  obtain ⟨ahead, text, rest, hSource', _, hRead⟩ := exists_lineAt?_of_mem_directiveLines hLine
  obtain ⟨_, _, _, _, _, hSpan⟩ := lineAt?_eq_some hRead
  have hSize : Text.size front = Text.size ahead := by
    rw [← hStart, hSame, hSpan]
  obtain ⟨_, rfl⟩ := Text.append_inj_of_size (hSource.symm.trans hSource') hSize
  rw [lineAt?_define] at hRead
  cases hRead

end ValueNames.MacroGroup
