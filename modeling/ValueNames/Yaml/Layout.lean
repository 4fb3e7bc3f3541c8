import ValueNames.Yaml.Token

/-!
# The layout of YAML documents

A block collection begins where a dash or a key stands to the right of the
collection around it, and ends where a line begins to the left of it. That a
node is a key shows only at the colon after it: until then it is a candidate.
A candidate is given up at the next line and after 1024 bytes; where the keys
of a block mapping stand, it must not be given up.

## Main results

* `skipGap_length_le` — what lies between two tokens is behind the first one.
-/

namespace ValueNames.Yaml

/-- A node that may turn out to be a key. -/
structure Candidate where
  /-- The character it begins with. -/
  start : Placed
  /-- Whether it stands where the keys of the innermost block mapping do. -/
  required : Bool
  /-- How many tokens come before it. -/
  tokensBefore : Nat

/-- Whether a candidate is too far away to be the key of a value at a later place. -/
def Candidate.isExpired (candidate : Candidate) (c : Placed) : Bool :=
  candidate.start.line < c.line || candidate.start.offset + 1024 < c.offset

/-- The layout of a document up to a place. -/
structure Layout where
  /-- The tokens up to there. -/
  tokens : Array Token := #[]
  /-- The columns of the block collections that are open, innermost first. -/
  columns : List Nat := []
  /-- Whether a key may begin there. -/
  keyAllowed : Bool := true
  /-- The candidate between the innermost brackets that are open. -/
  candidate : Option Candidate := none
  /-- The candidates around the brackets that are open, innermost first. -/
  outer : List (Option Candidate) := []

namespace Layout

/-- Whether brackets are open. -/
def inFlow (layout : Layout) : Bool := !layout.outer.isEmpty

/-- The column from which on the content of the innermost block collection stands. -/
def least (layout : Layout) : Nat :=
  match layout.columns with
  | [] => 0
  | column :: _ => column + 1

/-- Adds a token. -/
def push (layout : Layout) (token : Token) : Layout :=
  { layout with tokens := layout.tokens.push token }

/-! ## Block collections -/

/--
Begins a block collection before the token of a number, unless brackets are
open or it does not stand to the right of the collection around it.
-/
def openBlock (layout : Layout) (column number : Nat) (token : Token) : Layout :=
  if layout.inFlow ∨ column < layout.least then layout
  else
    { layout with
      columns := column :: layout.columns
      tokens := layout.tokens.insertIdxIfInBounds number token }

/-- Ends the block collections that stand at the column `first` or to the right of it. -/
def closeBlocks (layout : Layout) (first : Nat) : Layout :=
  if layout.inFlow then layout
  else
    let closed := layout.columns.takeWhile (first ≤ ·)
    { layout with
      columns := layout.columns.dropWhile (first ≤ ·)
      tokens := layout.tokens ++ List.replicate closed.length Token.blockEnd }

/-! ## Candidates -/

/-- Gives up the candidate. -/
def dropCandidate? (layout : Layout) : Option Layout :=
  if layout.candidate.any (·.required) then none
  else some { layout with candidate := none }

/-- Takes down a node that begins at a place, if a key may begin there. -/
def noteCandidate? (layout : Layout) (c : Placed) : Option Layout :=
  if layout.keyAllowed then
    layout.dropCandidate?.map fun dropped =>
      { dropped with
        candidate := some
          { start := c
            required := !layout.inFlow && layout.least = c.column + 1
            tokensBefore := layout.tokens.size } }
  else some layout

/--
Gives up the candidate if it is too far away from a place. Those around the
brackets that are open are looked at when the brackets are closed.
-/
def expire? (layout : Layout) (c : Placed) : Option Layout :=
  if layout.candidate.any (·.isExpired c) then layout.dropCandidate? else some layout

/-! ## Tokens -/

/-- Takes in an opening bracket, before which a candidate may begin. -/
def enterFlow (layout : Layout) (token : Token) : Layout :=
  { layout with
    tokens := layout.tokens.push token
    keyAllowed := true
    candidate := none
    outer := layout.candidate :: layout.outer }

/-- Takes in a closing bracket. -/
def leaveFlow (layout : Layout) (token : Token) : Layout :=
  { layout with
    tokens := layout.tokens.push token
    keyAllowed := false
    candidate := layout.outer.head?.join
    outer := layout.outer.tail }

/-- Takes in a dash or the mark of a key. -/
def enterBlock? (layout : Layout) (c : Placed) (block token : Token) : Option Layout :=
  if layout.inFlow ∨ layout.keyAllowed then
    (layout.openBlock c.column layout.tokens.size block).dropCandidate?.map (·.push token)
  else none

/-- Takes in the mark of a value, which makes the candidate a key. -/
def enterValue? (layout : Layout) (c : Placed) : Option Layout :=
  match layout.candidate with
  | some key =>
      let keyed := { layout with
        tokens := layout.tokens.insertIdxIfInBounds key.tokensBefore .key
        candidate := none
        keyAllowed := false }
      some ((keyed.openBlock key.start.column key.tokensBefore .blockMapping).push .value)
  | none =>
      if layout.inFlow ∨ layout.keyAllowed then
        let opened := layout.openBlock c.column layout.tokens.size .blockMapping
        some { opened.push .value with keyAllowed := !layout.inFlow }
      else none

/-- Takes in a token that begins at a place; `broken` tells whether a line break follows. -/
def put? (layout : Layout) (c : Placed) (token : Token) (broken : Bool) : Option Layout :=
  match token with
  | .openSequence | .openMapping => (layout.noteCandidate? c).map (·.enterFlow token)
  | .closeSequence | .closeMapping => layout.dropCandidate?.map (·.leaveFlow token)
  | .comma => layout.dropCandidate?.map fun l => { l.push token with keyAllowed := true }
  | .dash =>
      (layout.enterBlock? c .blockSequence token).map fun l => { l with keyAllowed := true }
  | .key =>
      (layout.enterBlock? c .blockMapping token).map fun l => { l with keyAllowed := !l.inFlow }
  | .value => layout.enterValue? c
  | .scalar _ .literal | .scalar _ .folded =>
      layout.dropCandidate?.map fun l => { l.push token with keyAllowed := true }
  | .scalar .. | .anchor _ | .reference _ | .tag _ =>
      (layout.noteCandidate? c).map fun l => { l.push token with keyAllowed := broken }
  | .directive _ | .documentStart | .documentEnd =>
      (layout.closeBlocks 0).dropCandidate?.map fun l => { l.push token with keyAllowed := false }
  | .blockSequence | .blockMapping | .blockEnd => none

/-! ## Documents -/

/--
Whether a key may begin at the next token, and the rest from there on. A tab
may stand before a token only where no key may begin, or inside brackets. A
byte order mark at the front of a line is passed over.
-/
def skipGap (flow keyAllowed comment : Bool) : Source → Bool × Source
  | [] => (keyAllowed, [])
  | c :: s =>
      if isBreak c.char then skipGap flow (keyAllowed || !flow) false s
      else if comment ∨ c.char = '#' then skipGap flow keyAllowed true s
      else if c.char = ' ' ∨ (c.char = '\t' ∧ (flow ∨ !keyAllowed)) then
        skipGap flow keyAllowed false s
      else if c.char = '\ufeff' ∧ c.column = 0 then skipGap flow keyAllowed false s
      else (keyAllowed, c :: s)

theorem skipGap_length_le (flow keyAllowed comment : Bool) (s : Source) :
    (skipGap flow keyAllowed comment s).2.length ≤ s.length := by
  fun_induction skipGap flow keyAllowed comment s with
  | case1 => exact Nat.le_refl _
  | case2 _ _ _ _ _ ih => exact Nat.le_succ_of_le ih
  | case3 _ _ _ _ _ _ ih => exact Nat.le_succ_of_le ih
  | case4 _ _ _ _ _ _ _ ih => exact Nat.le_succ_of_le ih
  | case5 _ _ _ _ _ _ _ _ ih => exact Nat.le_succ_of_le ih
  | case6 => exact Nat.le_refl _

/-- The layout at the end of a text. -/
def ofSource? (layout : Layout) (s : Source) : Option Layout :=
  match hGap : skipGap layout.inFlow layout.keyAllowed false s with
  | (keyAllowed, []) => ({ layout with keyAllowed }.closeBlocks 0).dropCandidate?
  | (keyAllowed, c :: rest) =>
      match { layout with keyAllowed }.expire? c with
      | none => none
      | some later =>
          let here := later.closeBlocks (c.column + 1)
          match hFound : lexeme? here.inFlow here.least c rest with
          | none => none
          | some found =>
              have : found.rest.length < s.length := by
                have hSkipped := skipGap_length_le layout.inFlow layout.keyAllowed false s
                have hRest := lexeme?_length_le hFound
                rw [hGap, List.length_cons] at hSkipped
                omega
              match here.put? c found.token found.broken with
              | none => none
              | some next => next.ofSource? found.rest
termination_by s.length
decreasing_by assumption

end Layout

/-- The tokens of a document, if it can be cut into tokens. -/
def tokens? (s : Text) : Option (List Token) :=
  if s.all isPrintable then
    (Layout.ofSource? {} (place 0 0 0 s)).map fun layout => layout.tokens.toList
  else none

end ValueNames.Yaml
