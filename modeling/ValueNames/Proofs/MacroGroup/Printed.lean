import Mathlib.Data.List.TakeWhile
import ValueNames.Output.Function
import ValueNames.Proofs.MacroGroup.Finding
import ValueNames.Proofs.Text.Lowercase

/-!
# Printed macro definitions

Definitions of macros can be printed line by line, between lines of any other kind: a mark,
a space, the lead and a word, blanks, a hexadecimal number, and perhaps blanks and a carriage
return at the end of the line. Where no other line holds the mark, they are read back as a
group, in order, each with its place. The lead may be any text, even one that begins with
blanks, goes over lines or holds the mark itself.

## Main results

* `afterGap?_lead` — behind one space, the lead is read off whatever it begins with.
* `PrintedMacro.definitionAt?_text` — a printed definition is read off its own text.
* `searchFrom_definition`, `searchFrom_otherLine` — how a search goes on behind a printed
  definition, and behind any other line.
* `searchFrom_printed` — a search finds the printed definitions and nothing else.
* `Finder.find_printedMacros` — the finder reads them back as one group.
-/

namespace ValueNames

open Text

/-- A definition of a macro as it is printed, without the lead of its name. -/
structure PrintedMacro where
  word : Text
  /-- The letter of the hexadecimal mark. -/
  letter : Char
  digits : Text
  /-- The blanks before the value. -/
  gap : Text
  /-- The blanks behind the value. -/
  trailing : Text
  /-- Whether the line ends with a carriage return. -/
  returns : Bool
  word_ne_nil : word ≠ []
  word_isWord : ∀ c ∈ word, isWord c = true
  letter_eq : letter = 'x' ∨ letter = 'X'
  digits_ne_nil : digits ≠ []
  digits_isHexDigit : ∀ c ∈ digits, MacroGroup.isHexDigit c = true
  gap_ne_nil : gap ≠ []
  gap_blank : ∀ c ∈ gap, isSpaceOrTab c = true
  trailing_blank : ∀ c ∈ trailing, isSpaceOrTab c = true

namespace PrintedMacro

/-- The value as written. -/
def value (printed : PrintedMacro) : Text := '0' :: printed.letter :: printed.digits

/-- What stands behind the value on its line. -/
def ending (printed : PrintedMacro) : Text :=
  printed.trailing ++ if printed.returns then ['\r'] else []

/-- The line of the definition, without its line feed. -/
def text (lead : Text) (printed : PrintedMacro) : Text :=
  "#define".toList ++
    ' ' :: (lead ++ (printed.word ++ (printed.gap ++ (printed.value ++ printed.ending))))

/-- The case of a switch for the definition, which returns a label. -/
def case (lead label : Text) (printed : PrintedMacro) : Text :=
  "\tcase ".toList ++ (lead ++ printed.word) ++ ":\n\t    return \"".toList ++ label ++
    "\";".toList

theorem case_eq (lead : Text) (printed : PrintedMacro) (span : Span)
    (others : List MacroDefinition) :
    MacroGroup.case ⟨lead, others⟩ ⟨lead ++ printed.word, printed.value, span⟩ =
      printed.case lead (lowercase printed.word) := by
  have hStrip : stripLead? lead (lead ++ printed.word) = some printed.word :=
    stripLead?_eq_some_iff.mpr rfl
  have hLabel : MacroGroup.label ⟨lead, others⟩ ⟨lead ++ printed.word, printed.value, span⟩ =
      lowercase printed.word := by
    unfold MacroGroup.label
    simp only [hStrip, Option.getD_some]
  unfold MacroGroup.case case
  rw [hLabel]

theorem text_append (lead : Text) (printed : PrintedMacro) (rest : Text) :
    printed.text lead ++ rest = "#define".toList ++ ' ' :: (lead ++ (printed.word ++
      (printed.gap ++ (printed.value ++ (printed.ending ++ rest))))) := by
  unfold text
  generalize "#define".toList = mark
  generalize printed.value = value
  generalize printed.ending = ending
  simp only [List.append_assoc, List.cons_append]

end PrintedMacro

/-- A line of a text with printed definitions. -/
inductive PrintedLine
  | defines (printed : PrintedMacro)
  /-- Any other line, which does not hold the mark of a definition. -/
  | other (line : Text) (within : '\n' ∉ line) (unmarked : ¬ "#define".toList <:+: line)

namespace PrintedLine

/-- A line without its line feed. -/
def text (lead : Text) : PrintedLine → Text
  | defines printed => printed.text lead
  | other line _ _ => line

/-- The definition on a line, if it has one. -/
def printed? : PrintedLine → Option PrintedMacro
  | defines printed => some printed
  | other _ _ _ => none

/-- Lines, each with its line feed. -/
def document (lead : Text) (lines : List PrintedLine) : Text :=
  lines.flatMap fun line => line.text lead ++ ['\n']

/-- The definitions on some lines, of which the first one starts at an offset. -/
def definitions (lead : Text) (offset : Nat) : List PrintedLine → List MacroDefinition
  | [] => []
  | line :: lines =>
      let stop := offset + size (line.text lead)
      (line.printed?.map fun printed =>
        (⟨lead ++ printed.word, printed.value, ⟨offset, stop⟩⟩ : MacroDefinition)).toList ++
      definitions lead (stop + 1) lines

theorem document_cons (lead : Text) (line : PrintedLine) (lines : List PrintedLine) :
    document lead (line :: lines) = line.text lead ++ '\n' :: document lead lines := by
  rw [document, List.flatMap_cons, List.append_assoc]
  rfl

end PrintedLine

namespace MacroGroup

/-! ## The parts of a printed definition -/

/-- Behind one space, the lead is read off whatever it begins with. -/
theorem afterGap?_lead (lead : Text) {c : Char} (hc : isBlank c = false) (rest : Text) :
    afterGap? lead (' ' :: (lead ++ c :: rest)) = some (c :: rest) := by
  have hTake : (' ' :: (lead ++ c :: rest)).takeWhile isBlank = ' ' :: lead.takeWhile isBlank := by
    rw [List.takeWhile_cons_of_pos (by decide), takeWhile_append_mark _ _ hc]
  have hDrop : (' ' :: (lead ++ c :: rest)).dropWhile isBlank =
      lead.dropWhile isBlank ++ c :: rest := by
    rw [List.dropWhile_cons_of_pos (by decide), dropWhile_append_mark _ _ hc]
  simp only [afterGap?, hTake, hDrop]
  rw [if_pos]
  · exact stripLead?_eq_some_iff.mpr rfl
  · exact ⟨Nat.lt_succ_self _, List.isSuffixOf_iff_suffix.mpr (List.suffix_cons ' ' _)⟩

/-- A word is read up to the blanks behind it. -/
theorem wordAndGap?_word {word gap rest : Text} {c : Char} (hSome : word ≠ [])
    (hWord : ∀ d ∈ word, isWord d = true) (hGapSome : gap ≠ [])
    (hGap : ∀ d ∈ gap, isSpaceOrTab d = true) (hc : isBlank c = false) :
    wordAndGap? (word ++ (gap ++ c :: rest)) = some (word, c :: rest) := by
  obtain ⟨first, gap, rfl⟩ := List.exists_cons_of_ne_nil hGapSome
  obtain ⟨hFirst, hGap⟩ := List.forall_mem_cons.mp hGap
  have hBlank := isBlank_of_isSpaceOrTab hFirst
  have hEnd : isWord first = false := by
    cases hIs : isWord first with
    | false => rfl
    | true => exact absurd ((not_isBlank_of_isWord hIs).symm.trans hBlank) (by decide)
  have hTrim : trimStart (gap ++ c :: rest) = c :: rest := by
    rw [trimStart, List.dropWhile_append_of_pos fun d hd => isBlank_of_isSpaceOrTab (hGap d hd),
      List.dropWhile_cons_of_neg (by simp [hc])]
  rw [wordAndGap?, List.takeWhile_append_of_pos hWord, List.dropWhile_append_of_pos hWord,
    List.cons_append, List.takeWhile_cons_of_neg (by simp [hEnd]),
    List.dropWhile_cons_of_neg (by simp [hEnd]), List.append_nil]
  cases word with
  | nil => exact absurd rfl hSome
  | cons d word => simp only [hBlank, if_true, hTrim]

/-- A number is read up to its last digit. -/
theorem hexNumber?_value (printed : PrintedMacro) {rest : Text}
    (hRest : rest.head?.any isHexDigit = false) :
    hexNumber? (printed.value ++ rest) = some (printed.value, rest) := by
  have hTake : printed.digits.takeWhile isHexDigit = printed.digits :=
    List.takeWhile_eq_self_iff.mpr printed.digits_isHexDigit
  have hDrop : printed.digits.dropWhile isHexDigit = [] :=
    List.dropWhile_eq_nil_iff.mpr printed.digits_isHexDigit
  have hOwn : hexNumber? printed.value = some (printed.value, []) := by
    rw [PrintedMacro.value, hexNumber?, hTake, hDrop,
      if_pos ⟨printed.letter_eq, printed.digits_ne_nil⟩]
  obtain ⟨_, _, _, _, hAgain⟩ := exists_digits_of_hexNumber? hOwn
  exact hAgain rest hRest

/-- What stands behind the value is read up to the line feed. -/
theorem lineEnd?_ending (printed : PrintedMacro) (rest : Text) :
    lineEnd? (printed.ending ++ '\n' :: rest) = some ('\n' :: rest) ∧
      (printed.ending ++ '\n' :: rest).head?.any isHexDigit = false := by
  have hReturn : (if printed.returns then ['\r'] else []) = [] ∨
      (if printed.returns then ['\r'] else []) = ['\r'] := by
    cases printed.returns with
    | false => exact .inl rfl
    | true => exact .inr rfl
  rw [PrintedMacro.ending, List.append_assoc]
  refine ⟨lineEnd?_append printed.trailing_blank hReturn (.inr ⟨rest, rfl⟩), ?_⟩
  cases hTrailing : printed.trailing with
  | nil => rcases hReturn with hReturn | hReturn <;> rw [hReturn] <;> rfl
  | cons c trailing =>
      have hc := printed.trailing_blank c (by rw [hTrailing]; exact List.mem_cons_self)
      rcases isSpaceOrTab_iff.mp hc with rfl | rfl <;> rfl

/-- A printed definition is read off its own text. -/
theorem definitionAt?_text (lead : Text) (printed : PrintedMacro) (rest : Text) :
    definitionAt? lead (printed.text lead ++ '\n' :: rest) =
      some ((lead ++ printed.word, printed.value), '\n' :: rest) := by
  obtain ⟨hEnd, hNoDigit⟩ := lineEnd?_ending printed rest
  have hValue := hexNumber?_value printed hNoDigit
  have hName : wordAndGap? (printed.word ++ (printed.gap ++ (printed.value ++
      (printed.ending ++ '\n' :: rest)))) =
        some (printed.word, printed.value ++ (printed.ending ++ '\n' :: rest)) :=
    wordAndGap?_word printed.word_ne_nil printed.word_isWord printed.gap_ne_nil printed.gap_blank
      (by decide)
  have hLead : afterGap? lead (' ' :: (lead ++ (printed.word ++ (printed.gap ++ (printed.value ++
      (printed.ending ++ '\n' :: rest)))))) =
        some (printed.word ++
          (printed.gap ++ (printed.value ++ (printed.ending ++ '\n' :: rest)))) := by
    obtain ⟨first, word, hWord⟩ := List.exists_cons_of_ne_nil printed.word_ne_nil
    have hFirst := printed.word_isWord first (by rw [hWord]; exact List.mem_cons_self)
    rw [hWord, List.cons_append]
    exact afterGap?_lead lead (not_isBlank_of_isWord hFirst) _
  rw [definitionAt?, printed.text_append, stripLead?_eq_some_iff.mpr rfl]
  simp only [Option.bind_some, hLead, hName, hValue, hEnd, Option.map_some]

/-! ## Searching printed lines -/

/-- Where the mark does not stand, no definition is read. -/
theorem definitionAt?_of_not_prefix {lead s : Text} (h : ¬ "#define".toList <+: s) :
    definitionAt? lead s = none := by
  cases hRead : definitionAt? lead s with
  | none => rfl
  | some found =>
      obtain ⟨tail, rfl, _⟩ := definitionAt?_suffix hRead
      exact absurd (List.prefix_append _ _) h

/-- In a text without the mark nothing is found. -/
theorem searchFrom_unmarked {lead tail : Text} (hTail : ¬ "#define".toList <:+: tail)
    (before : Option Char) (offset : Nat) :
    (definition lead).searchFrom before offset tail = [] := by
  have hUnread : ∀ s, s <:+ tail → s ≠ [] → ∀ before,
      (definition lead).read before (s ++ []) = none := by
    intro s hSuffix _ before
    apply definitionAt?_of_not_prefix
    rw [List.append_nil]
    exact fun hPrefix => hTail (hPrefix.isInfix.trans hSuffix.isInfix)
  have hNone := Recogniser.searchFrom_append_of_none hUnread before offset
  rwa [List.append_nil, Recogniser.searchFrom] at hNone

/-- The mark does not go over the end of a line. -/
theorem not_infix_concat {line : Text} (h : ¬ "#define".toList <:+: line) :
    ¬ "#define".toList <:+: line ++ ['\n'] := by
  rw [List.infix_concat_iff, not_or]
  refine ⟨fun hLast => ?_, h⟩
  have hFeed : '\n' ∈ "#define".toList := by
    rcases List.suffix_concat_iff.mp hLast with hEmpty | ⟨front, hFront, _⟩
    · exact absurd hEmpty (by decide)
    · rw [hFront]
      exact List.mem_append_right front List.mem_cons_self
  exact absurd hFeed (by decide)

/-- A line without the mark is passed over, whatever follows. -/
theorem searchFrom_otherLine {lead line : Text} (hLine : ¬ "#define".toList <:+: line)
    (rest : Text) (before : Option Char) (offset : Nat) :
    (definition lead).searchFrom before offset (line ++ '\n' :: rest) =
      (definition lead).searchFrom ((line ++ ['\n']).getLast?.or before)
        (offset + (size line + 1)) rest := by
  have hEnds : EndsLine (line ++ ['\n']) := .inr ⟨line, rfl⟩
  have hUnread : ∀ s, s <:+ line ++ ['\n'] → s ≠ [] → ∀ before,
      (definition lead).read before (s ++ rest) = none := by
    intro s hSuffix hSome before
    apply definitionAt?_of_not_prefix
    exact hEnds.not_prefix (by decide) (not_infix_concat hLine) hSuffix hSome _
  have hSkip := Recogniser.searchFrom_append_of_none hUnread before offset
  have hSize : size (line ++ ['\n']) = size line + 1 := size_append line ['\n']
  rwa [List.append_assoc, List.singleton_append, hSize] at hSkip

/-- A printed definition is found, and the search goes on behind its line. -/
theorem searchFrom_definition (lead : Text) (printed : PrintedMacro) (rest : Text)
    (before : Option Char) (offset : Nat) :
    (definition lead).searchFrom before offset (printed.text lead ++ '\n' :: rest) =
      ((lead ++ printed.word, printed.value),
          ⟨offset, offset + size (printed.text lead)⟩) ::
        (definition lead).searchFrom (some '\n') (offset + size (printed.text lead) + 1) rest := by
  have hRead : (definition lead).read before (printed.text lead ++ '\n' :: rest) =
      some ((lead ++ printed.word, printed.value), '\n' :: rest) :=
    definitionAt?_text lead printed rest
  have hFeed : (definition lead).read (printed.text lead).getLast? ('\n' :: rest) = none := rfl
  rw [Recogniser.searchFrom_of_read hRead, Recogniser.searchFrom_of_none hFeed]
  rfl

/-- A search of printed lines finds the definitions on them, and no others. -/
theorem searchFrom_printed (lead : Text) (lines : List PrintedLine) {tail : Text}
    (hTail : ¬ "#define".toList <:+: tail) (before : Option Char) (offset : Nat) :
    (definition lead).searchFrom before offset (PrintedLine.document lead lines ++ tail) =
      (PrintedLine.definitions lead offset lines).map fun defined =>
        ((defined.name, defined.value), defined.span) := by
  induction lines generalizing before offset with
  | nil => exact searchFrom_unmarked hTail before offset
  | cons line lines ih =>
      rw [PrintedLine.document_cons, List.append_assoc, List.cons_append]
      cases line with
      | defines printed =>
          rw [PrintedLine.text, searchFrom_definition, ih]
          rfl
      | other text hWithin hUnmarked =>
          rw [PrintedLine.text, searchFrom_otherLine hUnmarked, ih, ← Nat.add_assoc]
          rfl

end MacroGroup

namespace PrintedLine

/-- The definitions on some lines have the names and values that were printed. -/
theorem map_definitions (lead : Text) (offset : Nat) (lines : List PrintedLine) :
    (definitions lead offset lines).map (fun defined => (defined.name, defined.value)) =
      (lines.filterMap printed?).map fun printed => (lead ++ printed.word, printed.value) := by
  induction lines generalizing offset with
  | nil => rfl
  | cons line lines ih =>
      cases line with
      | defines printed => exact congrArg (List.cons _) (ih _)
      | other text hWithin hUnmarked => exact ih _

/-- Lines that start further behind have their definitions further behind. -/
theorem definitions_add (lead : Text) (offset base : Nat) (lines : List PrintedLine) :
    definitions lead (offset + base) lines = (definitions lead offset lines).map fun defined =>
      { defined with span := defined.span.shift base } := by
  induction lines generalizing offset with
  | nil => rfl
  | cons line lines ih =>
      have hStop : offset + base + size (line.text lead) =
          offset + size (line.text lead) + base := by omega
      have hNext : offset + size (line.text lead) + base + 1 =
          offset + size (line.text lead) + 1 + base := by omega
      rw [definitions, definitions, hStop, hNext, ih, List.map_append]
      cases line with
      | defines printed => rfl
      | other text hWithin hUnmarked => rfl

/-- They stand where they were printed. -/
theorem slice?_definitions (lead : Text) (lines : List PrintedLine) (front back : Text) :
    (definitions lead (size front) lines).map (fun defined =>
        slice? (front ++ (document lead lines ++ back)) defined.span.start defined.span.stop) =
      (lines.filterMap printed?).map fun printed => some (printed.text lead) := by
  induction lines generalizing front with
  | nil => rfl
  | cons line lines ih =>
      have hRest := ih (front ++ (line.text lead ++ ['\n']))
      have hSize : size (front ++ (line.text lead ++ ['\n'])) =
          size front + size (line.text lead) + 1 := by
        rw [size_append, size_append, ← Nat.add_assoc]
        rfl
      have hSource : front ++ (line.text lead ++ ['\n']) ++ (document lead lines ++ back) =
          front ++ (document lead (line :: lines) ++ back) := by
        rw [document_cons]
        simp only [List.append_assoc, List.cons_append, List.nil_append]
      rw [hSize, hSource] at hRest
      have hOwn : slice? (front ++ (document lead (line :: lines) ++ back)) (size front)
          (size front + size (line.text lead)) = some (line.text lead) := by
        refine slice?_eq_some_iff.mpr ⟨front, '\n' :: (document lead lines ++ back), ?_, rfl, rfl⟩
        rw [document_cons]
        simp only [List.append_assoc, List.cons_append]
      cases line with
      | defines printed => exact List.cons_eq_cons.mpr ⟨hOwn, hRest⟩
      | other text hWithin hUnmarked => exact hRest

/-- A group has the cases of the definitions that were printed. -/
theorem map_case (lead : Text) (offset : Nat) (lines : List PrintedLine)
    (others : List MacroDefinition) :
    (definitions lead offset lines).map (MacroGroup.case ⟨lead, others⟩) =
      (lines.filterMap printed?).map (fun printed =>
        printed.case lead (lowercase printed.word)) := by
  induction lines generalizing offset with
  | nil => rfl
  | cons line lines ih =>
      cases line with
      | defines printed =>
          exact List.cons_eq_cons.mpr ⟨printed.case_eq lead _ others, ih _⟩
      | other text hWithin hUnmarked => exact ih _

end PrintedLine

namespace Finder

open MacroGroup PrintedLine

/--
Printed definitions are read back. Whatever the lead is, in a region with some printed
definitions and no other mark, the finder finds one group: it has the definitions in order,
with the names and values that were printed and with the places where they stand in the
source, and it stands where the first one does. Its function has one case for each
definition, in order, that returns the lower case of its word: the one text that the rules of
Unicode allow, and for a plain ASCII word the word letter by letter.
-/
theorem find_printedMacros {lead : Text} (hLead : lead ≠ []) {lines : List PrintedLine}
    (hSome : lines.filterMap printed? ≠ []) {tail : Text} (hTail : ¬ "#define".toList <:+: tail)
    (front back : Text) :
    ∃ finder, macroGroup lead = .ok finder ∧
      let text := document lead lines ++ tail
      let source := front ++ (text ++ back)
      let group : MacroGroup := ⟨lead, definitions lead (size front) lines⟩
      finder.find source ⟨size front, size front + size text⟩ = .ok [.macroGroup group] ∧
      (group.definitions.map fun defined => (defined.name, defined.value)) =
        (lines.filterMap printed?).map (fun printed => (lead ++ printed.word, printed.value)) ∧
      (group.definitions.map fun defined =>
          slice? source defined.span.start defined.span.stop) =
        (lines.filterMap printed?).map (fun printed => some (printed.text lead)) ∧
      (∃ first, group.definitions.head? = some first ∧ group.span? = some first.span) ∧
      ∃ label : PrintedMacro → Text,
        (∀ printed lower, IsLowercase printed.word lower ↔ lower = label printed) ∧
        (∀ printed : PrintedMacro, (∀ c ∈ printed.word, c.toNat < 128) →
          label printed = printed.word.map Char.toLower) ∧
        ∀ name sentinel, group.function name sentinel =
          "const char *".toList ++ name ++
            "( uint16_t in )\n\x7b\n    switch( in )\n    \x7b\n".toList ++
            join ['\n'] ((lines.filterMap printed?).map fun printed =>
              printed.case lead (label printed)) ++
            "\n    \x7d;\n\n    return \"".toList ++ sentinel ++ "\";\n\x7d".toList := by
  have hFinder : macroGroup lead = .ok _ := if_neg hLead
  refine ⟨_, hFinder, ?_⟩
  intro text source group
  have hRegion : regionText source ⟨size front, size front + size text⟩ = .ok text :=
    regionText_eq_ok_iff.mpr (slice?_eq_some_iff.mpr ⟨front, back, by simp [source], rfl, rfl⟩)
  have hDefinitions : definitionsIn lead (size front) text = group.definitions := by
    have hSearch := searchFrom_printed lead lines hTail none 0
    have hMoved := definitions_add lead 0 (size front) lines
    rw [Nat.zero_add] at hMoved
    rw [definitionsIn, Recogniser.search, hSearch, List.map_map]
    exact hMoved.symm
  have hNames := map_definitions lead (size front) lines
  have hNe : group.definitions ≠ [] := by
    intro hNone
    have hNil : definitions lead (size front) lines = [] := hNone
    rw [hNil] at hNames
    exact hSome (List.map_eq_nil_iff.mp hNames.symm)
  refine ⟨?_, hNames, ?_, ?_, ?_⟩
  · show (regionText source _).map _ = _
    rw [hRegion]
    show Except.ok ((MacroGroup.ofDefinitions? lead (definitionsIn lead (size front) text)).map
      Entity.macroGroup).toList = _
    rw [hDefinitions, ofDefinitions?, if_neg hNe]
    rfl
  · have hPlaces := slice?_definitions lead lines front (tail ++ back)
    rwa [← List.append_assoc (document lead lines)] at hPlaces
  · obtain ⟨first, rest, hFirst⟩ := List.exists_cons_of_ne_nil hNe
    exact ⟨first, by rw [hFirst]; rfl, by rw [span?, hFirst]; rfl⟩
  · refine ⟨fun printed => lowercase printed.word, fun _ _ => isLowercase_iff,
      fun _ hAscii => lowercase_of_ascii hAscii, fun name sentinel => ?_⟩
    have hCases : group.definitions.map group.case =
        (lines.filterMap printed?).map (fun printed =>
          printed.case lead (lowercase printed.word)) :=
      map_case lead (size front) lines group.definitions
    unfold MacroGroup.function
    rw [hCases]

/-- A definition on a line that ends with a carriage return. -/
def printedRed : PrintedMacro where
  word := "RED".toList
  letter := 'x'
  digits := "0f".toList
  gap := "\t ".toList
  trailing := " ".toList
  returns := true
  word_ne_nil := by decide
  word_isWord := List.all_eq_true.mp (by decide)
  letter_eq := .inl rfl
  digits_ne_nil := by decide
  digits_isHexDigit := List.all_eq_true.mp (by decide)
  gap_ne_nil := by decide
  gap_blank := List.all_eq_true.mp (by decide)
  trailing_blank := List.all_eq_true.mp (by decide)

/-- A definition on a line that ends with its value. -/
def printedBlue : PrintedMacro where
  word := "Blue_2".toList
  letter := 'X'
  digits := "1".toList
  gap := " ".toList
  trailing := []
  returns := false
  word_ne_nil := by decide
  word_isWord := List.all_eq_true.mp (by decide)
  letter_eq := .inr rfl
  digits_ne_nil := by decide
  digits_isHexDigit := List.all_eq_true.mp (by decide)
  gap_ne_nil := by decide
  gap_blank := List.all_eq_true.mp (by decide)
  trailing_blank := fun _ hc => absurd hc List.not_mem_nil

/-- A definition with a word that is not ASCII and ends with a sigma. -/
def printedMarsh : PrintedMacro where
  word := "ÉΛΟΣ".toList
  letter := 'x'
  digits := "2".toList
  gap := " ".toList
  trailing := []
  returns := false
  word_ne_nil := by decide
  word_isWord := List.all_eq_true.mp (by decide +kernel)
  letter_eq := .inl rfl
  digits_ne_nil := by decide
  digits_isHexDigit := List.all_eq_true.mp (by decide)
  gap_ne_nil := by decide
  gap_blank := List.all_eq_true.mp (by decide)
  trailing_blank := fun _ hc => absurd hc List.not_mem_nil

/-- Three definitions with a line among them, behind a character of two bytes. -/
def printedColors : List PrintedLine :=
  [.defines printedRed, .other "int x;".toList (by decide) (by decide +kernel),
    .defines printedBlue, .defines printedMarsh]

/-- They are read back with a lead that begins with a blank and ends with a mark of patterns. -/
theorem find_printedColors :
    let text := document " c.".toList printedColors ++ "end".toList
    let group : MacroGroup := ⟨" c.".toList,
      [⟨" c.RED".toList, "0x0f".toList, ⟨2, 24⟩⟩, ⟨" c.Blue_2".toList, "0X1".toList, ⟨32, 53⟩⟩,
        ⟨" c.ÉΛΟΣ".toList, "0x2".toList, ⟨54, 77⟩⟩]⟩
    " c.".toList ≠ [] ∧ printedColors.filterMap printed? ≠ [] ∧
      ¬ "#define".toList <:+: "end".toList ∧
      (∃ finder, macroGroup " c.".toList = .ok finder ∧
        finder.find ("é".toList ++ (text ++ [])) ⟨2, 81⟩ = .ok [.macroGroup group]) ∧
      ∀ name sentinel, group.function name sentinel =
        "const char *".toList ++ name ++
          "( uint16_t in )\n\x7b\n    switch( in )\n    \x7b\n".toList ++
          ("\tcase  c.RED:\n\t    return \"red\";\n".toList ++
            "\tcase  c.Blue_2:\n\t    return \"blue_2\";\n".toList ++
            "\tcase  c.ÉΛΟΣ:\n\t    return \"éλος\";".toList) ++
          "\n    \x7d;\n\n    return \"".toList ++ sentinel ++ "\";\n\x7d".toList := by
  intro text group
  have hTail : ¬ "#define".toList <:+: "end".toList := by decide +kernel
  have hSome : printedColors.filterMap printed? ≠ [] := List.cons_ne_nil _ _
  have hLead : " c.".toList ≠ [] := by decide
  obtain ⟨finder, hFinder, hFind, _, _, _, label, hLabel, hAscii, hFunction⟩ :=
    find_printedMacros hLead hSome hTail "é".toList []
  have hSize : size text = 79 := by decide +kernel
  have hDefinitions : definitions " c.".toList 2 printedColors = group.definitions := by
    decide +kernel
  have hFront : size "é".toList = 2 := by decide +kernel
  have hRed : label printedRed = "red".toList :=
    (hAscii printedRed (by simp [printedRed])).trans (by decide)
  have hBlue : label printedBlue = "blue_2".toList :=
    (hAscii printedBlue (by simp [printedBlue])).trans (by decide)
  have hMarsh : label printedMarsh = "éλος".toList := by
    refine ((hLabel printedMarsh _).mp ?_).symm
    exact isLowercase_iff.mpr (by decide +kernel)
  have hCases : join ['\n'] ((printedColors.filterMap printed?).map fun printed =>
      printed.case " c.".toList (label printed)) =
        "\tcase  c.RED:\n\t    return \"red\";\n".toList ++
          "\tcase  c.Blue_2:\n\t    return \"blue_2\";\n".toList ++
          "\tcase  c.ÉΛΟΣ:\n\t    return \"éλος\";".toList := by
    show join ['\n'] [printedRed.case " c.".toList (label printedRed),
      printedBlue.case " c.".toList (label printedBlue),
      printedMarsh.case " c.".toList (label printedMarsh)] = _
    rw [hRed, hBlue, hMarsh]
    decide +kernel
  rw [hFront, hDefinitions] at hFunction
  rw [hFront, hSize, hDefinitions] at hFind
  refine ⟨hLead, hSome, hTail, ⟨finder, hFinder, hFind⟩, fun name sentinel => ?_⟩
  rw [← hCases]
  exact hFunction name sentinel

end Finder

end ValueNames
