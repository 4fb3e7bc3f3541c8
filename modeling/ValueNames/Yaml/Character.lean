import ValueNames.Text.Basic

/-!
# Characters of YAML documents

Indentation carries the structure of a YAML document, so the characters of a
document are read together with their places. All line breaks but
the line and paragraph separators are one and the same character, and a
carriage return before a line feed belongs to it.
-/

namespace ValueNames.Yaml

/-! ## Classes of characters -/

/-- Whether a character can stand in a document. -/
def isPrintable (c : Char) : Bool :=
  let n := c.toNat
  n = 0x9 || n = 0xA || n = 0xD || (0x20 ≤ n && n ≤ 0x7E) || n = 0x85 ||
    (0xA0 ≤ n && n ≤ 0xFFFD) || 0x10000 ≤ n

/-- Whether a character ends a line. -/
def isBreak (c : Char) : Bool :=
  c = '\n' || c = '\r' || c = '\u0085' || c = '\u2028' || c = '\u2029'

/-- Whether a character is a space or a tab. -/
def isWhite (c : Char) : Bool := c = ' ' || c = '\t'

/-- The brackets and the comma of flow collections. -/
def isFlowMark (c : Char) : Bool :=
  c = ',' || c = '[' || c = ']' || c = '\x7b' || c = '\x7d'

/-- The letters, digits and dashes that make up the names of anchors, tags and directives. -/
def isNameChar (c : Char) : Bool := c.isAlphanum || c = '_' || c = '-'

/-! ## Places -/

/-- A character of a document and where it stands. -/
structure Placed where
  char : Char
  line : Nat
  column : Nat
  /-- The number of bytes before it. -/
  offset : Nat
deriving DecidableEq, Repr

/-- What a document holds from a place on. -/
abbrev Source := List Placed

/-- The characters of a source. -/
def chars (s : Source) : Text := s.map Placed.char

/-- The break that a character which ends a line counts as. -/
def plainBreak (c : Char) : Char :=
  if c = '\u2028' ∨ c = '\u2029' then c else '\n'

/-- The characters of a text that begins at a place. -/
def place (line column offset : Nat) : Text → Source
  | [] => []
  | '\r' :: '\n' :: s => ⟨'\n', line, column, offset⟩ :: place (line + 1) 0 (offset + 2) s
  | c :: s =>
      if isBreak c then
        ⟨plainBreak c, line, column, offset⟩ :: place (line + 1) 0 (offset + c.utf8Size) s
      else ⟨c, line, column, offset⟩ :: place line (column + 1) (offset + c.utf8Size) s

/-! ## What stands at the front -/

/-- Whether a character of a kind is at the front. -/
def begins (kind : Char → Bool) (s : Source) : Bool := s.head?.any fun c => kind c.char

/-- Whether nothing, white space or the end of the line is at the front. -/
def atGap (s : Source) : Bool := s.head?.all fun c => isWhite c.char || isBreak c.char

/-- Whether a document marker is at the front: three dashes or dots that begin a line. -/
def atMarker : Source → Bool
  | a :: b :: c :: s =>
      a.column = 0 && (a.char = '-' || a.char = '.') && b.char = a.char && c.char = a.char &&
        atGap s
  | _ => false

/-- The rest after the white space at the front. -/
def skipWhite (s : Source) : Source := s.dropWhile fun c => isWhite c.char

/-- The rest from the next line break on. -/
def skipLine (s : Source) : Source := s.dropWhile fun c => !isBreak c.char

theorem length_skipWhite_le (s : Source) : (skipWhite s).length ≤ s.length :=
  (List.dropWhile_suffix _).length_le

theorem length_skipLine_le (s : Source) : (skipLine s).length ≤ s.length :=
  (List.dropWhile_suffix _).length_le

/-- The rest after white space and a comment at the front. -/
def skipComment (s : Source) : Source :=
  if begins (· = '#') (skipWhite s) then skipLine (skipWhite s) else skipWhite s

theorem length_skipComment_le (s : Source) : (skipComment s).length ≤ s.length := by
  unfold skipComment
  split
  · exact Nat.le_trans (length_skipLine_le _) (length_skipWhite_le _)
  · exact length_skipWhite_le _

/-- What follows the line break at the front; at the end of the text that is nothing. -/
def afterBreak? : Source → Option Source
  | [] => some []
  | c :: rest => if isBreak c.char then some rest else none

/-- What follows a line of which only white space and a comment may be left. -/
def endLine? (s : Source) : Option Source := afterBreak? (skipComment s)

theorem endLine?_length_le {s rest : Source} (h : endLine? s = some rest) :
    rest.length ≤ s.length := by
  have hComment := length_skipComment_le s
  unfold endLine? afterBreak? at h
  split at h
  · cases h
    exact Nat.zero_le _
  · rename_i hEq
    split at h
    · cases h
      rw [hEq, List.length_cons] at hComment
      omega
    · cases h

end ValueNames.Yaml
