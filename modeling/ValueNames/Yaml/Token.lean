import ValueNames.Yaml.Directive
import ValueNames.Yaml.Scalar.Plain
import ValueNames.Yaml.Scalar.Quoted

/-!
# YAML tokens

A document is cut into tokens. Scalars, brackets, indicators, node properties
and directives stand in the text; that a block collection begins or ends, and
that a node is the key of a mapping, shows in the layout only.

## Main results

* `lexeme?_length_le` — what a token takes off a text is at least one
  character.
-/

namespace ValueNames.Yaml

/-- The tokens of a document. -/
inductive Token
  | scalar (text : Text) (style : Style)
  | anchor (name : Text)
  /-- A reference to the node of an anchor. -/
  | reference (name : Text)
  | tag (name : TagName)
  | openSequence
  | closeSequence
  | openMapping
  | closeMapping
  | comma
  | dash
  /-- What follows is a key. -/
  | key
  /-- What follows is the value of a key. -/
  | value
  | blockSequence
  | blockMapping
  /-- The end of a block sequence or a block mapping. -/
  | blockEnd
  | directive (directive : Directive)
  | documentStart
  | documentEnd
deriving DecidableEq, Repr

/-- A token in the text, whether a line break behind it is taken with it, and the rest. -/
structure Lexeme where
  token : Token
  broken : Bool := false
  rest : Source

/-! ## Indicators -/

/-- The token of a bracket or a comma. -/
def flowToken? : Char → Option Token
  | '[' => some .openSequence
  | ']' => some .closeSequence
  | '\x7b' => some .openMapping
  | '\x7d' => some .closeMapping
  | ',' => some .comma
  | _ => none

/-- The token of an indicator before `s`; inside brackets not each of them needs a gap. -/
def indicator? (flow : Bool) (c : Char) (s : Source) : Option Token :=
  match c with
  | '-' => if atGap s then some .dash else none
  | '?' => if flow || atGap s then some .key else none
  | ':' => if flow || atGap s then some .value else none
  | c => flowToken? c

/-! ## Nodes -/

/-- The characters with which no plain scalar begins. -/
def isReserved (c : Char) : Bool :=
  isWhite c || isBreak c || isFlowMark c || "#&*!|>'\"%@\x60".toList.contains c

/-- The name at the front of what follows the mark of an anchor or a reference, and the rest. -/
def anchorName? (s : Source) : Option (Text × Source) :=
  let (name, rest) := nameAtFront s
  if name.isEmpty then none
  else if atGap rest || begins ("?:,]\x7d%@\x60".toList.contains ·) rest then some (name, rest)
  else none

/-- The scalar, anchor, reference or tag that begins with `c`. -/
def nodeToken? (flow : Bool) (least : Nat) (c : Placed) (s : Source) : Option Lexeme :=
  match c.char with
  | '\'' => (singleQuoted? s).map fun (text, rest) => ⟨.scalar text .quoted, false, rest⟩
  | '"' => (doubleQuoted? s).map fun (text, rest) => ⟨.scalar text .quoted, false, rest⟩
  | '*' => (anchorName? s).map fun (name, rest) => ⟨.reference name, false, rest⟩
  | '&' => (anchorName? s).map fun (name, rest) => ⟨.anchor name, false, rest⟩
  | '!' => (tagName? flow s).map fun (name, rest) => ⟨.tag name, false, rest⟩
  | '|' =>
      if flow then none
      else
        (blockScalar? .literal least s).map fun (text, rest) =>
          ⟨.scalar text .literal, true, rest⟩
  | '>' =>
      if flow then none
      else
        (blockScalar? .folded least s).map fun (text, rest) =>
          ⟨.scalar text .folded, true, rest⟩
  | char =>
      if isReserved char || endsPlain flow 0 (c :: s) then none
      else
        (plain? flow least (c :: s)).map fun (text, broken, rest) =>
          ⟨.scalar text .plain, broken, rest⟩

theorem anchorName?_length_le {s rest : Source} {name : Text}
    (h : anchorName? s = some (name, rest)) : rest.length ≤ s.length := by
  have hName := nameAtFront_length_le s
  unfold anchorName? at h
  dsimp only at h
  split at h
  · cases h
  · split at h
    · cases h
      exact hName
    · cases h

theorem nodeToken?_length_le {flow : Bool} {least : Nat} {c : Placed} {s : Source} {found : Lexeme}
    (h : nodeToken? flow least c s = some found) : found.rest.length ≤ s.length := by
  unfold nodeToken? at h
  split at h
  · obtain ⟨_, hTaken, rfl⟩ := Option.map_eq_some_iff.mp h
    exact singleQuoted?_length_le hTaken
  · obtain ⟨_, hTaken, rfl⟩ := Option.map_eq_some_iff.mp h
    exact doubleQuoted?_length_le hTaken
  · obtain ⟨_, hTaken, rfl⟩ := Option.map_eq_some_iff.mp h
    exact anchorName?_length_le hTaken
  · obtain ⟨_, hTaken, rfl⟩ := Option.map_eq_some_iff.mp h
    exact anchorName?_length_le hTaken
  · obtain ⟨_, hTaken, rfl⟩ := Option.map_eq_some_iff.mp h
    exact tagName?_length_le hTaken
  · split at h
    · cases h
    · obtain ⟨_, hTaken, rfl⟩ := Option.map_eq_some_iff.mp h
      exact blockScalar?_length_le hTaken
  · split at h
    · cases h
    · obtain ⟨_, hTaken, rfl⟩ := Option.map_eq_some_iff.mp h
      exact blockScalar?_length_le hTaken
  · split at h
    · cases h
    · rename_i hFree
      obtain ⟨⟨text, broken, rest⟩, hTaken, rfl⟩ := Option.map_eq_some_iff.mp h
      simp only [isReserved, Bool.or_eq_true, not_or, Bool.not_eq_true] at hFree
      exact plain?_length_le_tail hFree.1.1.1.2 hFree.1.1.1.1 hFree.2 hTaken

/-! ## Tokens in the text -/

/-- The token of the document marker that is written with a character. -/
def markerToken (c : Char) : Token := if c = '-' then .documentStart else .documentEnd

/--
The token that begins with `c`. It tells tokens apart whether brackets are
open, and the content of the innermost block collection begins at the column
`least`.
-/
def lexeme? (flow : Bool) (least : Nat) (c : Placed) (s : Source) : Option Lexeme :=
  if c.column = 0 ∧ c.char = '%' then
    (directive? s).map fun (directive, rest) => ⟨.directive directive, false, rest⟩
  else if atMarker (c :: s) then some ⟨markerToken c.char, false, s.drop 2⟩
  else
    match indicator? flow c.char s with
    | some token => some ⟨token, false, s⟩
    | none => nodeToken? flow least c s

theorem lexeme?_length_le {flow : Bool} {least : Nat} {c : Placed} {s : Source} {found : Lexeme}
    (h : lexeme? flow least c s = some found) : found.rest.length ≤ s.length := by
  unfold lexeme? at h
  split at h
  · obtain ⟨_, hTaken, rfl⟩ := Option.map_eq_some_iff.mp h
    exact directive?_length_le hTaken
  · split at h
    · cases h
      rw [List.length_drop]
      omega
    · split at h
      · cases h
        exact Nat.le_refl _
      · exact nodeToken?_length_le h

end ValueNames.Yaml
