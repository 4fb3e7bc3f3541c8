import ValueNames.Conditional.Guard
import ValueNames.Fault
import ValueNames.Text.Blank

/-!
# Directive lines

A directive line is a line of blanks, `#`, blanks and a keyword of a
conditional directive. An opening keyword has to be followed by a space or a
tab; what follows `else` or `endif` is free. The rest of the line is the
condition, and a backslash at the end of a line, or before the carriage
return at its end, joins the next line to it.

## Main results

* `logicalLine_append` — a logical line and what follows it are the text.
* `lineAt?_suffix` — a directive line is read off the front of the text.
-/

namespace ValueNames

/-! ## Keywords -/

/-- The opener named by a text, blanks at its ends not counting. -/
def Opener.parse (s : Text) : Except Fault Opener :=
  match [Opener.expression, .defined, .undefined].find? (·.word = Text.trim s) with
  | some opener => .ok opener
  | none => .error (.unknownDirective (Text.trim s))

/-- An opener is named by its own keyword. -/
theorem Opener.parse_word (opener : Opener) : Opener.parse opener.word = .ok opener := by
  cases opener <;> rfl

/-- What a directive line does to the open blocks. -/
inductive Directive
  | opens (opener : Opener)
  | closes (closer : Closer)
deriving DecidableEq, Repr

/-- A directive line with its place in the text. -/
structure DirectiveLine where
  directive : Directive
  /-- The text after the keyword, without blanks at its ends; joined lines keep their ends. -/
  condition : Text
  span : Span
deriving DecidableEq, Repr

namespace Conditional

/-- The text after an opening keyword and the space or tab that must follow it. -/
def openedBy? (s : Text) (opener : Opener) : Option (Directive × Text) :=
  match Text.stripLead? opener.word s with
  | some (c :: rest) => if Text.isSpaceOrTab c then some (.opens opener, rest) else none
  | _ => none

/-- The text after a closing keyword, which needs no end of word. -/
def closedBy? (s : Text) (closer : Closer) : Option (Directive × Text) :=
  (Text.stripLead? closer.word s).map fun rest => (.closes closer, rest)

/-- The directive whose keyword begins a text, and what follows it. -/
def keyword? (s : Text) : Option (Directive × Text) :=
  ([Opener.expression, .undefined, .defined].findSome? (openedBy? s)).or
    ([Closer.alternative, .final].findSome? (closedBy? s))

/-! ## Logical lines -/

/--
The text up to the first line feed that no backslash joins to the next line,
and the rest from that line feed on.
-/
def logicalLine : Text → Text × Text
  | [] => ([], [])
  | '\\' :: '\n' :: s => ('\\' :: '\n' :: (logicalLine s).1, (logicalLine s).2)
  | '\\' :: '\r' :: '\n' :: s => ('\\' :: '\r' :: '\n' :: (logicalLine s).1, (logicalLine s).2)
  | c :: s => if c = '\n' then ([], c :: s) else (c :: (logicalLine s).1, (logicalLine s).2)

theorem logicalLine_append (s : Text) : (logicalLine s).1 ++ (logicalLine s).2 = s := by
  fun_induction logicalLine s with
  | case1 => rfl
  | case2 s ih => simp [ih]
  | case3 s ih => simp [ih]
  | case4 => rfl
  | case5 c s _ _ _ ih => simp [ih]

/-- The text from the start of the next line on. -/
def nextLine (s : Text) : Text := (s.dropWhile (· ≠ '\n')).drop 1

/-! ## Directive lines of a text -/

/-- The directive line that begins at the start of a text, and the rest from its end on. -/
def lineAt? (offset : Nat) (s : Text) : Option (DirectiveLine × Text) :=
  match s.dropWhile Text.isSpaceOrTab with
  | '#' :: afterMark =>
      (keyword? (afterMark.dropWhile Text.isSpaceOrTab)).map fun (directive, afterWord) =>
        let (param, rest) := logicalLine (afterWord.dropWhile Text.isSpaceOrTab)
        (⟨directive, Text.trimEnd param, ⟨offset, offset + (Text.size s - Text.size rest)⟩⟩, rest)
  | _ => none

theorem keyword?_suffix {s rest : Text} {directive : Directive}
    (h : keyword? s = some (directive, rest)) : rest <:+ s := by
  have hOpened : ∀ opener, openedBy? s opener = some (directive, rest) → rest <:+ s := by
    intro opener hOpen
    unfold openedBy? at hOpen
    split at hOpen
    · rename_i c tail hLead
      split at hOpen
      · simp only [Option.some.injEq, Prod.mk.injEq] at hOpen
        obtain ⟨_, rfl⟩ := hOpen
        exact ⟨opener.word ++ [c], by simp [Text.stripLead?_eq_some_iff.mp hLead]⟩
      · simp at hOpen
    · simp at hOpen
  have hClosed : ∀ closer, closedBy? s closer = some (directive, rest) → rest <:+ s := by
    intro closer hClose
    obtain ⟨tail, hLead, hEq⟩ := Option.map_eq_some_iff.mp hClose
    simp only [Prod.mk.injEq] at hEq
    obtain ⟨_, rfl⟩ := hEq
    exact ⟨closer.word, (Text.stripLead?_eq_some_iff.mp hLead).symm⟩
  rcases Option.or_eq_some_iff.mp h with hOpen | ⟨_, hClose⟩
  · obtain ⟨opener, _, hOpen⟩ := List.exists_of_findSome?_eq_some hOpen
    exact hOpened opener hOpen
  · obtain ⟨closer, _, hClose⟩ := List.exists_of_findSome?_eq_some hClose
    exact hClosed closer hClose

theorem lineAt?_suffix {offset : Nat} {s rest : Text} {line : DirectiveLine}
    (h : lineAt? offset s = some (line, rest)) : rest <:+ s := by
  unfold lineAt? at h
  split at h
  · rename_i afterMark hMark
    obtain ⟨⟨directive, afterWord⟩, hWord, hEq⟩ := Option.map_eq_some_iff.mp h
    simp only [Prod.mk.injEq] at hEq
    obtain ⟨_, rfl⟩ := hEq
    have hTail : (logicalLine (afterWord.dropWhile Text.isSpaceOrTab)).2 <:+
        afterWord.dropWhile Text.isSpaceOrTab :=
      ⟨_, logicalLine_append _⟩
    have hMarked : afterMark <:+ s :=
      (List.suffix_cons '#' afterMark).trans (hMark ▸ List.dropWhile_suffix Text.isSpaceOrTab)
    exact hTail.trans ((List.dropWhile_suffix _).trans ((keyword?_suffix hWord).trans
      ((List.dropWhile_suffix _).trans hMarked)))
  · simp at h

theorem length_nextLine_lt {s : Text} (h : s ≠ []) : (nextLine s).length < s.length := by
  have hDrop : (s.dropWhile (· ≠ '\n')).length ≤ s.length :=
    (List.dropWhile_suffix _).length_le
  have hPos := List.length_pos_iff.mpr h
  simp only [nextLine, List.length_drop]
  omega

/--
Reads one logical line: the directive it holds, if any, the offset of the next
line, and the text from there on. Where no text is left the offset says nothing.
-/
def readLine (offset : Nat) (s : Text) : Option DirectiveLine × Nat × Text :=
  match lineAt? offset s with
  | some (line, rest) => (some line, line.span.stop + 1, nextLine rest)
  | none => (none, offset + Text.size (s.takeWhile (· ≠ '\n')) + 1, nextLine s)

theorem length_readLine_lt (offset : Nat) {s : Text} (h : s ≠ []) :
    (readLine offset s).2.2.length < s.length := by
  unfold readLine
  split
  · rename_i line rest hLine
    have hSuffix := lineAt?_suffix hLine
    cases rest with
    | nil => simpa [nextLine] using List.length_pos_iff.mpr h
    | cons c rest =>
        exact Nat.lt_of_lt_of_le (length_nextLine_lt (by simp)) hSuffix.length_le
  · exact length_nextLine_lt h

/-- The directive lines of a text whose first line starts at `offset`. -/
def linesFrom (offset : Nat) : Text → List DirectiveLine
  | [] => []
  | c :: s =>
      let read := readLine offset (c :: s)
      read.1.toList ++ linesFrom read.2.1 read.2.2
termination_by s => s.length
decreasing_by exact length_readLine_lt offset (by simp)

/-- The directive lines of a text, in order. -/
def directiveLines (s : Text) : List DirectiveLine := linesFrom 0 s

end Conditional

end ValueNames
