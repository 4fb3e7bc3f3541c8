import ValueNames.Yaml.Layout
import ValueNames.Yaml.Value

/-!
# YAML documents

A document is put together from its tokens, by one reader for each kind of
collection. A part that may be missing is left out where the next token cannot
begin it. Anchors name the parts read so far; a reference to a scalar is that
scalar.

Nested parts are read with a bound on the depth, which the number of tokens
gives.
-/

namespace ValueNames.Yaml

/-! ## Reading tokens -/

/-- The tokens that are left, and what the anchors so far stand for, latest first. -/
structure Remaining where
  tokens : List Token
  anchors : List (Text × Yaml) := []

/-- A reader of a part of a document. -/
abbrev Reader := StateT Remaining Option

/-- Whether the next token is among some tokens. -/
def nextIn (ends : List Token) : Reader Bool := do
  return (← get).tokens.head?.any ends.contains

/-- Passes over the next token. -/
def advance : Reader Unit := modify fun left => { left with tokens := left.tokens.tail }

/-- Passes over the next token if it is a certain one, and tells whether it was. -/
def accept (token : Token) : Reader Bool := do
  if (← get).tokens.head? = some token then
    advance
    return true
  return false

/-- Passes over the next token, which has to be a certain one. -/
def expect (token : Token) : Reader Unit := do
  unless ← accept token do failure

/-! ## Node properties -/

/-- What comes before the content of a node. -/
structure Properties where
  anchor : Option Text := none
  tag : Option TagName := none

/-- The anchor and the tag at the front of some tokens, in any order, and the rest. -/
def propertiesAtFront : List Token → Properties × List Token
  | .anchor anchor :: .tag tag :: tokens => (⟨some anchor, some tag⟩, tokens)
  | .tag tag :: .anchor anchor :: tokens => (⟨some anchor, some tag⟩, tokens)
  | .anchor anchor :: tokens => (⟨some anchor, none⟩, tokens)
  | .tag tag :: tokens => (⟨none, some tag⟩, tokens)
  | tokens => ({}, tokens)

/-- Reads the properties of a node. -/
def properties : Reader Properties := do
  let (found, tokens) := propertiesAtFront (← get).tokens
  modify fun left => { left with tokens }
  return found

/-- The tag that a name writes, where `handles` gives the meanings of handles. -/
def TagName.resolve? (handles : List (Text × Text)) (name : TagName) : Option Text :=
  if name.handle.isEmpty then some name.suffix
  else (handles.lookup name.handle).map (· ++ name.suffix)

/-- Takes down what an anchor stands for from here on. -/
def setAnchor (anchor : Option Text) (node : Text → Yaml) : Reader Unit :=
  modify fun left =>
    { left with anchors := (anchor.map fun name => (name, node name)).toList ++ left.anchors }

/-! ## Nodes -/

/-- Where a node stands, which decides on its content. -/
inductive Context
  /-- Between brackets, without block collections. -/
  | flow
  /-- Outside of brackets. -/
  | block
  /-- In a block mapping, where a sequence need not be indented. -/
  | entry
deriving DecidableEq, Repr

/-- The next scalar, if there is one. -/
def scalarNext? : Reader (Option (Text × Style)) := do
  match (← get).tokens with
  | .scalar text style :: tokens =>
      modify fun left => { left with tokens }
      return some (text, style)
  | _ => return none

/-- The node that the next reference stands for, if there is one. -/
def referenceNext? : Reader (Option Yaml) := do
  match (← get).tokens with
  | .reference name :: tokens =>
      let node ← ((← get).anchors.lookup name : Option Yaml)
      modify fun left => { left with tokens }
      return some node
  | _ => return none

mutual

/-- A node, where `handles` gives the meanings of the handles of tags. -/
def node (handles : List (Text × Text)) (context : Context) : Nat → Reader Yaml
  | 0 => failure
  | fuel + 1 => do
      if let some node ← referenceNext? then return node
      let found ← properties
      let tag ← found.tag.mapM fun name => (name.resolve? handles : Reader Text)
      if let some (text, style) ← scalarNext? then
        setAnchor found.anchor fun _ => .scalar text style tag
        return .scalar text style tag
      if context = .entry ∧ (← get).tokens.head? = some .dash then
        setAnchor found.anchor .collection
        return .sequence (← indentlessItems handles fuel)
      if ← accept .openSequence then
        setAnchor found.anchor .collection
        return .sequence (← flowItems handles true fuel)
      if ← accept .openMapping then
        setAnchor found.anchor .collection
        return .mapping (← flowEntries handles true fuel)
      if context ≠ .flow then
        if ← accept .blockSequence then
          setAnchor found.anchor .collection
          return .sequence (← blockItems handles fuel)
        if ← accept .blockMapping then
          setAnchor found.anchor .collection
          return .mapping (← blockEntries handles fuel)
      if found.anchor.isNone ∧ tag.isNone then failure
      setAnchor found.anchor fun _ => .scalar [] .plain tag
      return .scalar [] .plain tag

/-- A node, which is left out before the tokens of `ends`. -/
def nodeUnless (handles : List (Text × Text)) (context : Context) (ends : List Token) :
    Nat → Reader Yaml
  | 0 => failure
  | fuel + 1 => do
      if ← nextIn ends then return empty else node handles context fuel

/-- The value of a key, which may be missing. -/
def valueUnless (handles : List (Text × Text)) (context : Context) (ends : List Token) :
    Nat → Reader Yaml
  | 0 => failure
  | fuel + 1 => do
      if ← accept .value then nodeUnless handles context ends fuel else return empty

/-- The items of a block sequence up to its end. -/
def blockItems (handles : List (Text × Text)) : Nat → Reader (List Yaml)
  | 0 => failure
  | fuel + 1 => do
      if ← accept .blockEnd then return []
      expect .dash
      let item ← nodeUnless handles .block [.dash, .blockEnd] fuel
      return item :: (← blockItems handles fuel)

/-- The items of a sequence that is not indented against the key before it. -/
def indentlessItems (handles : List (Text × Text)) : Nat → Reader (List Yaml)
  | 0 => failure
  | fuel + 1 => do
      unless ← accept .dash do return []
      let item ← nodeUnless handles .block [.dash, .key, .value, .blockEnd] fuel
      return item :: (← indentlessItems handles fuel)

/-- The entries of a block mapping up to its end. -/
def blockEntries (handles : List (Text × Text)) : Nat → Reader (List (Yaml × Yaml))
  | 0 => failure
  | fuel + 1 => do
      if ← accept .blockEnd then return []
      expect .key
      let key ← nodeUnless handles .entry [.key, .value, .blockEnd] fuel
      let value ← valueUnless handles .entry [.key, .value, .blockEnd] fuel
      return (key, value) :: (← blockEntries handles fuel)

/-- The items of a flow sequence up to its end; a key with its value is a mapping. -/
def flowItems (handles : List (Text × Text)) (first : Bool) : Nat → Reader (List Yaml)
  | 0 => failure
  | fuel + 1 => do
      if ← accept .closeSequence then return []
      unless first do
        expect .comma
        if ← accept .closeSequence then return []
      let item ← flowItem handles fuel
      return item :: (← flowItems handles false fuel)

/-- An item of a flow sequence. A key without content takes the next token with it. -/
def flowItem (handles : List (Text × Text)) : Nat → Reader Yaml
  | 0 => failure
  | fuel + 1 => do
      unless ← accept .key do return ← node handles .flow fuel
      let bare ← nextIn [.value, .comma, .closeSequence]
      let key ← nodeUnless handles .flow [.value, .comma, .closeSequence] fuel
      if bare then advance
      let value ← valueUnless handles .flow [.comma, .closeSequence] fuel
      return .mapping [(key, value)]

/-- The entries of a flow mapping up to its end. -/
def flowEntries (handles : List (Text × Text)) (first : Bool) : Nat → Reader (List (Yaml × Yaml))
  | 0 => failure
  | fuel + 1 => do
      if ← accept .closeMapping then return []
      unless first do
        expect .comma
        if ← accept .closeMapping then return []
      let entry ← flowEntry handles fuel
      return entry :: (← flowEntries handles false fuel)

/-- An entry of a flow mapping; without a key mark it has no value. -/
def flowEntry (handles : List (Text × Text)) : Nat → Reader (Yaml × Yaml)
  | 0 => failure
  | fuel + 1 => do
      unless ← accept .key do return (← node handles .flow fuel, empty)
      let key ← nodeUnless handles .flow [.value, .comma, .closeMapping] fuel
      let value ← valueUnless handles .flow [.comma, .closeMapping] fuel
      return (key, value)

end

/-! ## Documents -/

/-- The meanings that handles have without a directive. -/
def commonHandles : List (Text × Text) :=
  [(['!'], ['!']), (['!', '!'], "tag:yaml.org,2002:".toList)]

/--
The meanings of handles after the directives at the front, and the rest. There
is at most one version, which is 1.1 or 1.2, and one meaning for a handle.
-/
def directives? (versioned : Bool) (handles : List (Text × Text)) :
    List Token → Option (List (Text × Text) × List Token)
  | .directive (.version major minor) :: tokens =>
      if versioned ∨ major ≠ 1 ∨ (minor ≠ 1 ∧ minor ≠ 2) then none
      else directives? true handles tokens
  | .directive (.handle name meaning) :: tokens =>
      if (handles.lookup name).isSome then none
      else directives? versioned ((name, meaning) :: handles) tokens
  | tokens => some (handles ++ commonHandles, tokens)

/-- Whether no content comes before the end of the document. -/
def endsDocument : List Token → Bool
  | [] | .directive _ :: _ | .documentStart :: _ | .documentEnd :: _ => true
  | _ => false

/-- The content of a document, where `handles` gives the meanings of handles, and the rest. -/
def content? (handles : List (Text × Text)) (tokens : List Token) :
    Option (Yaml × List Token) :=
  ((node handles .block (4 * tokens.length + 4)).run { tokens }).map fun (content, left) =>
    (content, left.tokens)

/-- The content of a document after its start marker, and the rest. -/
def markedContent? (handles : List (Text × Text)) : List Token → Option (Yaml × List Token)
  | .documentStart :: tokens =>
      if endsDocument tokens then some (empty, tokens) else content? handles tokens
  | _ => none

/-- The content of the first document and the tokens after it. -/
def firstDocument? : List Token → Option (Yaml × List Token)
  | [] => some (empty, [])
  | .documentStart :: tokens => markedContent? commonHandles (.documentStart :: tokens)
  | .directive directive :: tokens =>
      (directives? false [] (.directive directive :: tokens)).bind fun (handles, rest) =>
        markedContent? handles rest
  | tokens => content? commonHandles tokens

/-- The content of a document, after which there may be end markers and nothing else. -/
def ofTokens? (tokens : List Token) : Option Yaml :=
  (firstDocument? tokens).bind fun (content, rest) =>
    if rest.all (· = .documentEnd) then some content else none

/-- The content of the document that a text writes. -/
def read? (s : Text) : Option Yaml := (tokens? s).bind ofTokens?

end ValueNames.Yaml
