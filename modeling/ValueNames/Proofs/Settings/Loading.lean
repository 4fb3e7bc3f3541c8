import Mathlib.Data.List.Count
import Mathlib.Data.Option.Basic
import ValueNames.FileTree
import ValueNames.Proofs.Json.Writing
import ValueNames.Proofs.Text.Pieces
import ValueNames.Settings.File

/-!
# Settings that were written are loaded

A settings document may give the settings in any order, leave out those that have their
default, and give names that no setting has. Whatever it leaves out or adds, the settings it
was written for are the ones that are loaded, unless one of the names that must not be blank
is blank. A document that gives a setting twice is refused, even if it gives the same twice.

## Main results

* `ofNamed?_of_gives` — the members of a document give the settings it was written for.
* `ofNamed?_eq_none` — a setting that is given twice is refused.
* `ofFile_written` — what is loaded from a file that holds a JSON object.
-/

namespace ValueNames.Settings

/-! ## Single settings -/

/-- The value of a setting in a document. -/
def valueOf (settings : Settings) : Field → Json
  | .sourceHeader => .ofText settings.sourceHeader
  | .outputFile => .ofText settings.outputFile
  | .companionHeader => .ofText settings.companionHeader
  | .guardMacro => .ofText settings.guardMacro
  | .macroLead => .ofText settings.macroLead
  | .macroFunction => .ofText settings.macroFunction
  | .enumSentinel => .ofText settings.enumSentinel
  | .macroSentinel => .ofText settings.macroSentinel
  | .unguardedOutermost => .bool settings.unguardedOutermost

/-- Settings are known by the values of all settings. -/
theorem eq_of_valueOf {settings other : Settings}
    (h : ∀ field, settings.valueOf field = other.valueOf field) : settings = other := by
  have hText : ∀ s t : Text, Json.ofText s = Json.ofText t → s = t := by
    intro s t hEq
    exact Option.some.inj (Json.string.inj hEq)
  cases settings
  cases other
  rw [Settings.mk.injEq]
  exact ⟨hText _ _ (h .sourceHeader), hText _ _ (h .outputFile), hText _ _ (h .companionHeader),
    hText _ _ (h .guardMacro), hText _ _ (h .macroLead), hText _ _ (h .macroFunction),
    hText _ _ (h .enumSentinel), hText _ _ (h .macroSentinel),
    Json.bool.inj (h .unguardedOutermost)⟩

/-- Taking over a value changes one setting to that value. -/
theorem exists_assign?_valueOf (settings target : Settings) (field : Field) :
    ∃ next, settings.assign? (Reading.ofJson (target.valueOf field)) field = some next ∧
      next.valueOf field = target.valueOf field ∧
      ∀ other, other ≠ field → next.valueOf other = settings.valueOf other := by
  cases field <;> refine ⟨_, rfl, rfl, fun other hOther => ?_⟩ <;> cases other <;>
    first | rfl | exact absurd rfl hOther

/-! ## Names -/

namespace Field

theorem ofName?_eq_some_iff {t : Text} {field : Field} :
    ofName? t = some field ↔ field.name = t := by
  constructor
  · intro h
    have hName := List.find?_some h
    simpa using hName
  · rintro rfl
    exact ofName?_name field

theorem name_inj {field other : Field} (h : field.name = other.name) : field = other := by
  have hBoth := ofName?_name field
  rw [h, ofName?_name] at hBoth
  exact (Option.some.inj hBoth).symm

end Field

/-! ## Documents with names -/

/--
Whether the members of a document give some settings: no setting is given twice, what is given
has its value, and what is left out has its default. Names of no setting may be given too.
-/
structure Gives (members : List (Text × Json)) (settings : Settings) : Prop where
  once : ∀ field : Field, (members.map Prod.fst).count field.name ≤ 1
  given : ∀ (field : Field) value, (field.name, value) ∈ members → value = settings.valueOf field
  left : ∀ field : Field, field.name ∉ members.map Prod.fst →
    settings.valueOf field = valueOf {} field

/-- The name of a member and how its value is understood. -/
def namedOf (member : Text × Json) : Text × Reading := (member.1, Reading.ofJson member.2)

/--
The members that are still to come complete some settings: what was seen does not come again,
what comes has its value, and what does not come has its value already.
-/
structure Completes (members : List (Text × Json)) (seen : List Field)
    (settings target : Settings) : Prop where
  fresh : ∀ field ∈ seen, field.name ∉ members.map Prod.fst
  once : ∀ field : Field, (members.map Prod.fst).count field.name ≤ 1
  given : ∀ (field : Field) value, (field.name, value) ∈ members → value = target.valueOf field
  settled : ∀ field : Field, field.name ∉ members.map Prod.fst →
    settings.valueOf field = target.valueOf field

section

variable {members : List (Text × Json)} {seen : List Field} {settings target : Settings}
  {name : Text} {value : Json} {field : Field}

/-- A name that no setting has is passed over. -/
theorem Completes.pass (h : Completes ((name, value) :: members) seen settings target)
    (hName : Field.ofName? name = none) : Completes members seen settings target where
  fresh field hField hMem := h.fresh field hField (.tail _ hMem)
  once field := Nat.le_trans List.count_le_count_cons (h.once field)
  given field value hMem := h.given field value (.tail _ hMem)
  settled := by
    intro field hField
    have hNe : field.name ≠ name := by
      rintro rfl
      rw [Field.ofName?_name] at hName
      cases hName
    exact h.settled field (List.not_mem_cons_of_ne_of_not_mem hNe hField)

/-- A setting that is given takes its value and does not come again. -/
theorem Completes.take (h : Completes ((field.name, value) :: members) seen settings target) :
    field ∉ seen ∧ ∃ next, settings.assign? (Reading.ofJson value) field = some next ∧
      Completes members (field :: seen) next target := by
  have hNew : field ∉ seen := fun hSeen => h.fresh field hSeen (.head _)
  have hGone : field.name ∉ members.map Prod.fst := by
    have hCount := h.once field
    rw [List.map_cons, List.count_cons_self] at hCount
    exact List.count_eq_zero.mp (by omega)
  obtain rfl := h.given field value (.head _)
  obtain ⟨next, hNext, hValue, hOthers⟩ := exists_assign?_valueOf settings target field
  refine ⟨hNew, next, hNext, ?_, ?_, ?_, ?_⟩
  · intro other hOther
    rcases List.mem_cons.mp hOther with rfl | hOther
    · exact hGone
    · exact fun hMem => h.fresh other hOther (.tail _ hMem)
  · exact fun other => Nat.le_trans List.count_le_count_cons (h.once other)
  · exact fun other value hMem => h.given other value (.tail _ hMem)
  · intro other hOther
    by_cases hSame : other = field
    · rw [hSame, hValue]
    · have hNe : other.name ≠ field.name := fun hName => hSame (Field.name_inj hName)
      rw [hOthers other hSame]
      exact h.settled other (List.not_mem_cons_of_ne_of_not_mem hNe hOther)

/-- The settings that members complete are what they give. -/
theorem assignNamed?_of_completes (h : Completes members seen settings target) :
    assignNamed? settings seen (members.map namedOf) = some target := by
  induction members generalizing settings seen with
  | nil =>
      have hEq : settings = target := eq_of_valueOf fun field => h.settled field List.not_mem_nil
      rw [hEq]
      rfl
  | cons member members ih =>
      obtain ⟨name, value⟩ := member
      rw [List.map_cons, namedOf, assignNamed?]
      cases hName : Field.ofName? name with
      | none => exact ih (h.pass hName)
      | some field =>
          obtain rfl := Field.ofName?_eq_some_iff.mp hName
          obtain ⟨hNew, next, hNext, hRest⟩ := h.take
          simp only [if_neg hNew, hNext, Option.bind_some]
          exact ih hRest

/-- The members of a document give the settings it was written for. -/
theorem ofNamed?_of_gives (h : Gives members settings) :
    ofNamed? (members.map namedOf) = some settings := by
  refine assignNamed?_of_completes ⟨nofun, h.once, h.given, ?_⟩
  exact fun field hField => (h.left field hField).symm

end

/-- A setting that comes a second time is refused. -/
theorem assignNamed?_eq_none {field : Field} (readings : List (Text × Reading))
    (settings : Settings) (seen : List Field)
    (h : 2 ≤ (readings.map Prod.fst).count field.name + if field ∈ seen then 1 else 0) :
    assignNamed? settings seen readings = none := by
  induction readings generalizing settings seen with
  | nil =>
      rw [List.map_nil, List.count_nil] at h
      split at h <;> omega
  | cons entry readings ih =>
      obtain ⟨name, reading⟩ := entry
      rw [List.map_cons, List.count_cons] at h
      rw [assignNamed?]
      cases hName : Field.ofName? name with
      | none =>
          have hOther : ¬ name = field.name := by
            rintro rfl
            rw [Field.ofName?_name] at hName
            cases hName
          simp only [beq_iff_eq, if_neg hOther] at h
          exact ih settings seen h
      | some other =>
          obtain rfl := Field.ofName?_eq_some_iff.mp hName
          by_cases hSeen : other ∈ seen
          · simp only [if_pos hSeen]
          · simp only [if_neg hSeen]
            cases settings.assign? reading other with
            | none => rfl
            | some next =>
                refine ih next (other :: seen) ?_
                by_cases hSame : other = field
                · subst hSame
                  simpa [hSeen] using h
                · have hNames : ¬ other.name = field.name := fun h => hSame (Field.name_inj h)
                  have hMem : field ∈ other :: seen ↔ field ∈ seen := by
                    simp [Ne.symm hSame]
                  simpa [hNames, hMem] using h

/-! ## JSON objects -/

theorem ofJson?_ofMembers (members : List (Text × Json)) :
    ofJson? (Json.ofMembers members) = ofNamed? (members.map namedOf) := by
  have hNamed : ∀ member : Text × Json → Option Text × Json,
      (∀ entry, namedOfMember? (member entry) = some (namedOf entry)) →
      (members.map member).mapM namedOfMember? = some (members.map namedOf) := by
    intro member hMember
    induction members with
    | nil => rfl
    | cons entry members ih =>
        simp only [List.map_cons, List.mapM_cons, hMember, ih]
        rfl
  rw [Json.ofMembers, ofJson?, hNamed _ fun _ => rfl]
  rfl

/-- The names of the members of an object, where all of them are texts. -/
theorem names_of_mapM {members : List (Option Text × Json)} {readings : List (Text × Reading)}
    (h : members.mapM namedOfMember? = some readings) :
    members.map Prod.fst = (readings.map Prod.fst).map some := by
  induction members generalizing readings with
  | nil =>
      cases h
      rfl
  | cons member members ih =>
      obtain ⟨name, value⟩ := member
      rw [List.mapM_cons] at h
      obtain ⟨entry, hEntry, h⟩ := Option.bind_eq_some_iff.mp h
      obtain ⟨rest, hRest, h⟩ := Option.bind_eq_some_iff.mp h
      cases h
      obtain ⟨own, rfl, rfl⟩ := Option.map_eq_some_iff.mp hEntry
      rw [List.map_cons, ih hRest]
      rfl

/-- An object that gives a setting twice gives no settings. -/
theorem ofJson?_eq_none {members : List (Option Text × Json)} {field : Field}
    (h : 2 ≤ (members.map Prod.fst).count (some field.name)) :
    ofJson? (.object members) = none := by
  rw [ofJson?]
  cases hNamed : members.mapM namedOfMember? with
  | none => rfl
  | some readings =>
      rw [names_of_mapM hNamed, List.count_map_of_injective _ _ (Option.some_injective _)] at h
      exact assignNamed?_eq_none readings {} [] (by simpa using h)

/-! ## Checking -/

/--
Settings after the names that must not be blank were checked one after the other; the first
blank one is reported.
-/
def checked (settings : Settings) : Except Fault Settings :=
  if Text.trim settings.macroLead = [] then .error (.blankSetting "macro_prefix".toList)
  else if Text.trim settings.macroFunction = [] then
    .error (.blankSetting "macro_function".toList)
  else if Text.trim settings.outputFile = [] then .error (.blankSetting "output_file".toList)
  else if Text.trim settings.guardMacro = [] then .error (.blankSetting "guard_macro".toList)
  else .ok settings

theorem validate_map (settings : Settings) :
    (settings.validate.map fun _ => settings) = settings.checked := by
  simp only [checked, Text.trim_eq_nil_iff, validate, required, List.find?_cons]
  cases Text.allBlank settings.macroLead
  · cases Text.allBlank settings.macroFunction
    · cases Text.allBlank settings.outputFile
      · cases Text.allBlank settings.guardMacro <;> rfl
      · rfl
    · rfl
  · rfl

/-! ## Files -/

/-- What follows the last dot stands at the end of the name, behind the dot. -/
theorem suffix_of_extension? {path extension : Text}
    (h : Path.extension? path = some extension) :
    ∃ name, Path.fileName? path = some name ∧ '.' :: extension <:+ name := by
  obtain ⟨name, hName, hExtension⟩ := Option.bind_eq_some_iff.mp h
  refine ⟨name, hName, ?_⟩
  split at hExtension
  · rename_i last stem stems hPieces
    split at hExtension
    · cases hExtension
    · cases hExtension
      have hSplit : Text.splitOn '.' name = stems.reverse ++ [stem, extension] := by
        rw [← List.reverse_reverse (Text.splitOn '.' name), hPieces]
        simp
      have hJoin := Text.join_splitOn '.' name
      rw [hSplit, Text.join_append_cons_cons] at hJoin
      rw [← hJoin, ← List.append_assoc]
      exact List.suffix_append _ _
  · cases hExtension

/-- A file is read as JSON unless its name ends in one of the two endings of YAML. -/
theorem ofPath_eq_json {path : Text}
    (h : ∀ name, Path.fileName? path = some name →
      ¬ ".yaml".toList <:+ name ∧ ¬ ".yml".toList <:+ name) :
    Format.ofPath path = .json := by
  unfold Format.ofPath
  split
  · rename_i extension hExtension
    obtain ⟨name, hName, hEnd⟩ := suffix_of_extension? hExtension
    obtain ⟨hYaml, hYml⟩ := h name hName
    rw [if_neg]
    rintro (rfl | rfl)
    · exact hYaml hEnd
    · exact hYml hEnd
  · rfl

theorem StateM.bind_run {α β : Type} (step : StateM FileTree α)
    (next : α → StateM FileTree β) (tree : FileTree) :
    (step >>= next) tree = next (step tree).1 (step tree).2 := rfl

/-- A step that may fail, and what follows it if it does not. -/
theorem ExceptT.bind_tree {α β : Type} (step : ExceptT Fault (StateM FileTree) α)
    (next : α → ExceptT Fault (StateM FileTree) β) (tree : FileTree) :
    (step >>= next) tree =
      match step tree with
      | (.error fault, after) => (.error fault, after)
      | (.ok a, after) => next a after := by
  show (ExceptT.bindCont next (step tree).1 : StateM FileTree _) (step tree).2 = _
  obtain ⟨outcome, after⟩ := step tree
  cases outcome <;> rfl

theorem orFault_tree {α : Type} (step : StateM FileTree (Except FileFault α)) (tree : FileTree) :
    (FileStore.orFault step : ExceptT Fault (StateM FileTree) α) tree =
      ((step tree).1.mapError Fault.file, (step tree).2) := rfl

theorem ofExcept_tree {α : Type} (outcome : Except Fault α) (tree : FileTree) :
    (ofExcept outcome : ExceptT Fault (StateM FileTree) α) tree = (outcome, tree) := by
  cases outcome <;> rfl

/-- The text of a file is read from its UTF-8 form. -/
theorem readText_tree {tree : FileTree} {path text : Text}
    (h : tree.read path = .ok (Text.bytes text)) :
    (FileStore.readText path : StateM FileTree (Except FileFault Text)) tree =
      (.ok text, tree) := by
  have hRead : (FileStore.read path : StateM FileTree (Except FileFault ByteArray)) tree =
      (.ok (Text.bytes text), tree) := congrArg (·, tree) h
  rw [FileStore.readText, StateM.bind_run, hRead]
  simp only [Text.ofBytes?_bytes]
  rfl

/-- Loading a file reads its text and changes nothing. -/
theorem ofFile_tree {tree : FileTree} {path text : Text}
    (h : tree.read path = .ok (Text.bytes text)) :
    (ofFile path : ExceptT Fault (StateM FileTree) Settings) tree =
      (ofDocument path (Format.ofPath path) text, tree) := by
  rw [ofFile, ExceptT.bind_tree, orFault_tree, readText_tree h]
  exact ofExcept_tree _ tree

/--
A file whose name does not end in one of the two endings of YAML, and which holds a JSON
object. Where the members of the object give settings, these are loaded, or the first of the
four names that must not be blank is reported; where they give a setting twice, whichever its
values are, nothing is loaded.
-/
theorem ofFile_written {tree : FileTree} {path text : Text}
    (hName : ∀ name, Path.fileName? path = some name →
      ¬ ".yaml".toList <:+ name ∧ ¬ ".yml".toList <:+ name)
    (hRead : tree.read path = .ok (Text.bytes text)) :
    (∀ (members : List (Text × Json)) (settings : Settings),
      Json.Written (Json.ofMembers members) text → Gives members settings →
        (ofFile path : ExceptT Fault (StateM FileTree) Settings) tree =
          (settings.checked, tree)) ∧
    ∀ (members : List (Option Text × Json)) (field : Field),
      Json.Written (.object members) text →
        2 ≤ (members.map Prod.fst).count (some field.name) →
        (ofFile path : ExceptT Fault (StateM FileTree) Settings) tree =
          (.error (.malformedSettings path), tree) := by
  rw [ofFile_tree hRead, ofPath_eq_json hName]
  constructor
  · intro members settings hWritten hGives
    have hSettings : read? .json text = some settings := by
      rw [read?, Json.read?_of_written hWritten, Option.bind_some, ofJson?_ofMembers]
      exact ofNamed?_of_gives hGives
    simp only [ofDocument, hSettings, validate_map]
  · intro members field hWritten hTwice
    have hNone : read? .json text = none := by
      rw [read?, Json.read?_of_written hWritten, Option.bind_some]
      exact ofJson?_eq_none hTwice
    simp only [ofDocument, hNone]

section

open Json

/-- A member of an object that is a plain text under a plain name, without gaps. -/
theorem spellsAll_member {s t : Text} (hName : s.all isPlain = true) (hText : t.all isPlain = true)
    {tokens : List Token} {rest : Text} (hRest : SpellsAll tokens rest) :
    SpellsAll (.atom (.string (some s)) :: .colon :: .atom (.string (some t)) :: tokens)
      ('"' :: (s ++ ['"']) ++ ':' :: ('"' :: (t ++ ['"']) ++ rest)) := by
  have hNo : IsGaps [] := nofun
  exact .cons hNo (spells_plain hName) (.cons hNo .colon (.cons hNo (spells_plain hText) hRest))

/-- Settings, as they may be written by hand: all of them, and a name of no setting. -/
def sample : Text :=
  "\x7b \"macro_prefix\" : \"A\\u005F\\ud83d\\uDE00\", \"seen\": [-1.5e3, \"\\uD83d\"],".toList ++
    "\"unguarded_outermost\":true,\"source_header\":\"a.h\",".toList ++
    "\"output_file\":\"b.c\",\"companion_header\":\"b.h\",".toList ++
    "\"guard_macro\":\"G\",\"macro_function\":\"f\",".toList ++
    "\"enum_sentinel\":\"?\",\"macro_sentinel\":\"\"\x7d\n".toList

/-- What they give, name by name. -/
def sampleMembers : List (Text × Json) :=
  [("macro_prefix".toList, .ofText ['A', '_', '😀']),
    ("seen".toList, .array [.number "-1.5e3".toList, .string none]),
    ("unguarded_outermost".toList, .bool true), ("source_header".toList, .ofText "a.h".toList),
    ("output_file".toList, .ofText "b.c".toList), ("companion_header".toList, .ofText "b.h".toList),
    ("guard_macro".toList, .ofText "G".toList), ("macro_function".toList, .ofText "f".toList),
    ("enum_sentinel".toList, .ofText "?".toList), ("macro_sentinel".toList, .ofText [])]

theorem written_sample : Json.Written (Json.ofMembers sampleMembers) sample := by
  have hNo : IsGaps [] := nofun
  have hSpace : IsGaps [' '] := by simp [IsGaps]
  have hLine : IsGaps ['\n'] := by simp [IsGaps]
  have hLead : Spells (.atom (.string (some ['A', '_', '😀'])))
      "\"A\\u005F\\ud83d\\uDE00\"".toList := by
    have hA : SpellsItem (.char 'A') ['A'] := .plain (by decide)
    have hUnderscore : SpellsItem (.unit 0x5F) "\\u005F".toList :=
      .unit (w := 0) (x := 0) (y := 5) (z := 15) (by decide) (by decide) (by decide) (by decide)
    have hHigh : SpellsItem (.unit 0xD83D) "\\ud83d".toList :=
      .unit (w := 13) (x := 8) (y := 3) (z := 13) (by decide) (by decide) (by decide) (by decide)
    have hLow : SpellsItem (.unit 0xDE00) "\\uDE00".toList :=
      .unit (w := 13) (x := 14) (y := 0) (z := 0) (by decide) (by decide) (by decide) (by decide)
    exact .string (.cons hA (.cons hUnderscore (.cons hHigh (.cons hLow .nil)))) rfl
  have hHalf : Spells (.atom (.string none)) "\"\\uD83d\"".toList := by
    have hHigh : SpellsItem (.unit 0xD83D) "\\uD83d".toList :=
      .unit (w := 13) (x := 8) (y := 3) (z := 13) (by decide) (by decide) (by decide) (by decide)
    refine .string (.cons hHigh .nil) fun t ht => ?_
    obtain ⟨low, rest, hRest, _⟩ := (halves_units ht).2 rfl
    cases hRest
  have hNumber : IsNumber "-1.5e3".toList :=
    .parts (.inr rfl) (.digits (c := '1') (s := []) (by decide) ⟨by decide, by decide⟩)
      (.digits (s := ['5']) ⟨by decide, by decide⟩)
      (.digits (s := ['3']) (.inl rfl) (.inl rfl) ⟨by decide, by decide⟩)
  have hName : Spells _ "\"macro_prefix\"".toList :=
    spells_plain (s := "macro_prefix".toList) (by decide)
  have hSeen : Spells _ "\"seen\"".toList := spells_plain (s := "seen".toList) (by decide)
  have hFlag : Spells _ "\"unguarded_outermost\"".toList :=
    spells_plain (s := "unguarded_outermost".toList) (by decide)
  have hWritten : Json.Written (Json.ofMembers sampleMembers) _ := SpellsAll.cons hNo .openObject <|
    .cons hSpace hName <| .cons hSpace .colon <| .cons hSpace hLead <| .cons hNo .comma <|
    .cons hSpace hSeen <| .cons hNo .colon <| .cons hSpace .openArray <|
    .cons hNo (.number hNumber) <| .cons hNo .comma <| .cons hSpace hHalf <|
    .cons hNo .closeArray <| .cons hNo .comma <|
    .cons hNo hFlag <| .cons hNo .colon <| .cons hNo .yes <| .cons hNo .comma <|
    spellsAll_member (s := "source_header".toList) (t := "a.h".toList) (by decide) (by decide) <|
    .cons hNo .comma <|
    spellsAll_member (s := "output_file".toList) (t := "b.c".toList) (by decide) (by decide) <|
    .cons hNo .comma <|
    spellsAll_member (s := "companion_header".toList) (t := "b.h".toList) (by decide) (by decide) <|
    .cons hNo .comma <|
    spellsAll_member (s := "guard_macro".toList) (t := "G".toList) (by decide) (by decide) <|
    .cons hNo .comma <|
    spellsAll_member (s := "macro_function".toList) (t := "f".toList) (by decide) (by decide) <|
    .cons hNo .comma <|
    spellsAll_member (s := "enum_sentinel".toList) (t := "?".toList) (by decide) (by decide) <|
    .cons hNo .comma <|
    spellsAll_member (s := "macro_sentinel".toList) (t := []) (by decide) (by decide) <|
    .cons hNo .closeObject <| .nil hLine
  refine Eq.subst (motive := Json.Written (Json.ofMembers sampleMembers)) ?_ hWritten
  decide +kernel

/-- A document that gives a setting twice. -/
def twiceGiven : Text := "\x7b\"output_file\":1,\"output_file\":null\x7d".toList

theorem written_twiceGiven : Json.Written
    (.object [(some "output_file".toList, .number ['1']), (some "output_file".toList, .null)])
      twiceGiven := by
  have hNo : IsGaps [] := nofun
  have hName : Spells _ "\"output_file\"".toList :=
    spells_plain (s := "output_file".toList) (by decide)
  have hOne : IsNumber ['1'] :=
    .parts (.inl rfl) (.digits (c := '1') (s := []) (by decide) ⟨by decide, by decide⟩) .none .none
  exact SpellsAll.cons hNo .openObject <|
    .cons hNo hName <| .cons hNo .colon <| .cons hNo (.number hOne) <| .cons hNo .comma <|
    .cons hNo hName <| .cons hNo .colon <| .cons hNo .null <|
    .cons hNo .closeObject <| .nil hNo

end

/-- All settings are loaded from that file, whatever stands between them. -/
theorem ofFile_written_sample :
    let loaded : Settings :=
      { sourceHeader := "a.h".toList, outputFile := "b.c".toList, companionHeader := "b.h".toList
        guardMacro := ['G'], macroLead := ['A', '_', '😀'], macroFunction := ['f']
        enumSentinel := ['?'], macroSentinel := [], unguardedOutermost := true }
    let tree := ({} : FileTree).put "strgen.json".toList (Text.bytes sample)
    let other := ({} : FileTree).put "a.json".toList (Text.bytes twiceGiven)
    (ofFile "strgen.json".toList : ExceptT Fault (StateM FileTree) Settings) tree =
        (.ok loaded, tree) ∧
      (ofFile "a.json".toList : ExceptT Fault (StateM FileTree) Settings) other =
        (.error (.malformedSettings "a.json".toList), other) := by
  intro loaded tree other
  have hName : ∀ name, Path.fileName? "strgen.json".toList = some name →
      ¬ ".yaml".toList <:+ name ∧ ¬ ".yml".toList <:+ name := by
    rintro _ ⟨⟩
    decide
  have hOther : ∀ name, Path.fileName? "a.json".toList = some name →
      ¬ ".yaml".toList <:+ name ∧ ¬ ".yml".toList <:+ name := by
    rintro _ ⟨⟩
    decide
  have hGives : Gives sampleMembers loaded := by
    refine ⟨?_, ?_, ?_⟩
    · intro field
      cases field <;> decide
    · intro field value hMem
      have hValues : ∀ member ∈ sampleMembers, ∀ field, Field.ofName? member.1 = some field →
          member.2 = loaded.valueOf field := by
        rw [sampleMembers]
        simp only [List.forall_mem_cons, List.not_mem_nil, false_implies, implies_true, and_true]
        refine ⟨?_, ?_, ?_, ?_, ?_, ?_, ?_, ?_, ?_, ?_⟩ <;> rintro field ⟨⟩ <;> rfl
      exact hValues _ hMem field (Field.ofName?_name field)
    · intro field hField
      cases field <;> exact absurd hField (by decide)
  have hSample : tree.read "strgen.json".toList = .ok (Text.bytes sample) := rfl
  have hTwice : other.read "a.json".toList = .ok (Text.bytes twiceGiven) := rfl
  obtain ⟨hLoads, _⟩ := ofFile_written hName hSample
  obtain ⟨_, hRefuses⟩ := ofFile_written hOther hTwice
  have hChecked : loaded.checked = .ok loaded := by decide
  refine ⟨?_, hRefuses _ .outputFile written_twiceGiven (by decide)⟩
  rw [hLoads _ loaded written_sample hGives, hChecked]

end ValueNames.Settings
