import Mathlib.Data.List.Forall2
import ValueNames.Proofs.Comment.Returns
import ValueNames.Proofs.Header.Acceptance
import ValueNames.Proofs.Scan.Returns

/-!
# Headers with other line ends

A header may end its lines with line feeds, or with a carriage return before each line feed,
or some with the one and some with the other. What is scanned is the same. The items follow
each other in the same order and stand on the same lines; only in the conditions of guards the
carriage returns between joined lines are kept. A header that is refused is refused for the
same reason.

Nothing is said of a lead of macro names with a line feed in it, which would be looked for in
the middle of a line end.

## Main results

* `ofText_bare` — a header without its carriage returns.
* `ofText_withReturns` — a header with a carriage return before every line feed.
-/

namespace ValueNames

open Scan Conditional

/-! ## What does not depend on line ends -/

/-- Entities that differ only in their places. -/
def Entity.Agree : Entity → Entity → Prop
  | .enumeration declared, .enumeration other =>
      declared.name = other.name ∧ declared.typeName = other.typeName ∧
        declared.body = other.body
  | .macroGroup group, .macroGroup other =>
      group.lead = other.lead ∧
        group.definitions.map (fun definition => (definition.name, definition.value)) =
          other.definitions.map fun definition => (definition.name, definition.value)
  | _, _ => False

/-- The same item, if the carriage returns in the text of a guard line are left out. -/
def Item.Agree : Item → Item → Prop
  | .guard line, .guard other => line.closing = other.closing ∧ line.text = Text.bare other.text
  | .entity found, .entity other => found.Agree other
  | _, _ => False

/-- Faults of one kind. A fault of the nesting has the same line and the same guard. -/
def Fault.Agree : Fault → Fault → Prop
  | .strayCloser line closer, .strayCloser line' closer' => line = line' ∧ closer = closer'
  | .neverClosed line guard, .neverClosed line' guard' => line = line' ∧ guard = guard'.bare
  | .unnamedEnum _, .unnamedEnum _ => True
  | .emptyEnum _, .emptyEnum _ => True
  | .outOfText _, .outOfText _ => True
  | fault, fault' => fault = fault'

/-- The items of two headers agree one by one, and stand on the same lines. -/
def ScannedHeader.Agree (header other : ScannedHeader) : Prop :=
  List.Forall₂ (fun placed placed' =>
    header.lineOf placed = other.lineOf placed' ∧ placed.item.Agree placed'.item)
    header.items other.items

/-- Two scans fail for the same reason, or both succeed with headers that agree. -/
def ScannedHeader.ResultsAgree : Except Fault ScannedHeader → Except Fault ScannedHeader → Prop
  | .ok header, .ok other => header.Agree other
  | .error fault, .error other => fault.Agree other
  | _, _ => False

/-! ## Without carriage returns everything agrees -/

theorem Item.agree_bareIn (source : Text) (item : Item) : (item.bareIn source).Agree item := by
  cases item with
  | guard line => exact ⟨rfl, rfl⟩
  | entity found =>
      cases found with
      | enumeration declared => exact ⟨rfl, rfl, rfl⟩
      | macroGroup group =>
          refine ⟨rfl, ?_⟩
          simp only [MacroGroup.bareIn, List.map_map]
          rfl

theorem Fault.agree_bareIn (source : Text) (fault : Fault) : (fault.bareIn source).Agree fault := by
  cases fault with
  | strayCloser line closer => exact ⟨rfl, rfl⟩
  | neverClosed line guard => exact ⟨rfl, rfl⟩
  | unnamedEnum span => trivial
  | emptyEnum span => trivial
  | outOfText span => trivial
  | unknownDirective word => rfl
  | emptyMacroLead => rfl
  | blankSetting name => rfl
  | malformedSettings path => rfl
  | headerNotFound header start => rfl
  | file fault => rfl
  | emptyGroup lead => rfl

namespace ScannedHeader

/-- The header of the text without carriage returns. -/
def bare (header : ScannedHeader) : ScannedHeader :=
  ⟨Text.bare header.source, header.items.map (Placed.bareIn header.source)⟩

/-- The items stand on the same lines. -/
theorem agree_bare {header : ScannedHeader}
    (hSolid : ∀ placed ∈ header.items, Text.IsSolid header.source placed.offset) :
    header.bare.Agree header := by
  rw [Agree, bare, List.forall₂_map_left_iff, List.forall₂_same]
  intro placed hPlaced
  exact ⟨Text.lineOf_bare (hSolid placed hPlaced).isBoundary, placed.item.agree_bareIn _⟩

variable {raw : Text} {settings : Settings}

/-- No item of a header stands before a carriage return. -/
theorem isSolid_of_ofText (hLead : '\n' ∉ settings.macroLead) {header : ScannedHeader}
    (h : ofText raw settings = .ok header) :
    ∀ placed ∈ header.items, Text.IsSolid header.source placed.offset := by
  obtain ⟨finders, hFinders, _⟩ := bind_eq_ok_iff.mp h
  rw [ofText_eq hFinders] at h
  obtain ⟨items, hItems, rfl⟩ := map_eq_ok_iff.mp h
  have hBlind : ∀ finder ∈ (settings.setup finders raw).finders, finder.Blind :=
    blind_of_mem_finders hFinders hLead
  exact isSolid_of_collect hBlind (fun source => findsInside_finders hFinders source _) hItems

/--
A header without its carriage returns, if each of them stands before a line feed: everything
is found at its place there, or the same is wrong.
-/
theorem ofText_bare (h : Text.Paired raw) (hLead : '\n' ∉ settings.macroLead) :
    ofText (Text.bare raw) settings =
      bareResult (Comment.strip raw) bare (ofText raw settings) := by
  by_cases hNone : settings.macroLead = []
  · have hFault : settings.finders = .error .emptyMacroLead := by
      rw [Settings.finders, Finder.macroGroup, if_pos hNone]
      rfl
    rw [ofText, ofText, hFault]
    rfl
  obtain ⟨finders, hFinders⟩ := exists_finders hNone
  have hBlind : ∀ finder ∈ (settings.setup finders raw).finders, finder.Blind :=
    blind_of_mem_finders hFinders hLead
  have hSource : settings.setup finders (Text.bare raw) = (settings.setup finders raw).bare :=
    congrArg (Setup.mk · finders settings.unguardedOutermost) (Comment.strip_bare h)
  rw [ofText_eq hFinders, ofText_eq hFinders, hSource,
    collect_bare hBlind (fun source => findsInside_finders hFinders source _)
      (Comment.paired_strip h), Comment.strip_bare h]
  exact mapResult_map fun _ _ => rfl

/--
With a carriage return before every line feed the scan of a header fails for the same reason,
a faulty nesting at the same line, or gives items that agree one by one and stand on the same
lines.
-/
theorem ofText_withReturns {text : Text} (hText : '\r' ∉ text)
    (hLead : '\n' ∉ settings.macroLead) :
    ResultsAgree (ofText text settings) (ofText (Text.withReturns text) settings) := by
  have hBare := ofText_bare (Text.Paired.withReturns hText) hLead
  rw [Text.bare_withReturns hText] at hBare
  rw [hBare]
  cases hOther : ofText (Text.withReturns text) settings with
  | error fault => exact fault.agree_bareIn _
  | ok header => exact agree_bare (isSolid_of_ofText hLead hOther)

/-- A header with two joined lines and a comment over two lines. -/
def joined : Text :=
  ("#if A && \\\n  B\n/* C\n */ enum x \x7b a,\n b \x7d;\n" ++
    "#define MBEDTLS_TLS1_3_SIG_RSA 0x01\n#endif\n").toList

/-- That header has its enumeration on the fourth line, with both kinds of line ends. -/
theorem ofText_withReturns_joined :
    '\r' ∉ joined ∧ '\n' ∉ ({} : Settings).macroLead ∧
      ∃ header other, ofText joined {} = .ok header ∧
        ofText (Text.withReturns joined) {} = .ok other ∧ header.Agree other ∧
        ∃ placed ∈ header.items, placed.item.isEntity = true ∧ header.lineOf placed = 4 := by
  have hText : '\r' ∉ joined := by decide
  have hLead : '\n' ∉ ({} : Settings).macroLead := by decide
  obtain ⟨finders, hFinders⟩ : ∃ finders, ({} : Settings).finders = .ok finders :=
    exists_finders (by decide)
  obtain ⟨items, hRun⟩ : ∃ items, ((State.initial.run (({} : Settings).setup finders joined)
      (directiveLines (Comment.strip joined))).map State.ready).toOption = some items := by
    cases hFinders
    exact Option.isSome_iff_exists.mp (by decide +kernel)
  have hFound : ∃ found ∈ (State.initial.outline.parts (Comment.strip joined)
      (directiveLines (Comment.strip joined))).flatMap
        (({} : Settings).setup finders joined).itemsOf,
      found.item.isEntity = true ∧ found.offset = 17 := by
    cases hFinders
    decide +kernel
  have hHeader : ofText joined {} = .ok ⟨Comment.strip joined, items⟩ := by
    rw [ofText_eq hFinders, collect_of_run hRun]
    rfl
  obtain ⟨forest, hForest, hOrdered⟩ :=
    eq_ordered_of_collect (findsInside_finders hFinders _ _) (collect_of_run hRun)
  rw [← Outline.parts_eq_of_isOf hForest] at hOrdered
  obtain ⟨found, hMem, hEntity, hOffset⟩ := hFound
  obtain ⟨placed, hPlaced, hKind, hSame⟩ := Placed.exists_entity_ordered hMem hEntity
  have hLine : Text.lineOf (Comment.strip joined) placed.offset = 4 := by
    rw [hSame, hOffset]
    decide +kernel
  have hAgree := ofText_withReturns hText hLead
  rw [hHeader] at hAgree
  cases hOther : ofText (Text.withReturns joined) {} with
  | error fault =>
      rw [hOther] at hAgree
      exact hAgree.elim
  | ok other =>
      rw [hOther] at hAgree
      exact ⟨hText, hLead, _, other, hHeader, rfl, hAgree, placed, hOrdered ▸ hPlaced, hKind, hLine⟩

end ScannedHeader

end ValueNames
