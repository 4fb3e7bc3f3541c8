import ValueNames.MacroGroup.Basic
import ValueNames.Text.Blank
import ValueNames.Text.Search
import ValueNames.Text.Word

/-!
# Macro definitions in a text

A definition is `#define`, blanks, a name that adds at least one word
character to the lead, blanks, and a hexadecimal number that ends its line
but for spaces and tabs and one carriage return.

The lead may itself begin with blanks. The blanks after `#define` then end
with those of the lead, and at least one of them comes before these.

## Main results

* `definitionAt?_suffix` — a definition is read off the front of the text.
-/

namespace ValueNames.MacroGroup

/-- Whether a character is a hexadecimal digit. -/
def isHexDigit (c : Char) : Bool :=
  c.isDigit || ('a' ≤ c && c ≤ 'f') || ('A' ≤ c && c ≤ 'F')

/-- What follows a nonempty run of blanks that leaves `lead` to be read. -/
def afterGap? (lead s : Text) : Option Text :=
  let blanks := s.takeWhile Text.isBlank
  let leadBlanks := lead.takeWhile Text.isBlank
  if leadBlanks.length < blanks.length ∧ leadBlanks.isSuffixOf blanks then
    Text.stripLead? (lead.dropWhile Text.isBlank) (s.dropWhile Text.isBlank)
  else none

/--
A nonempty run of word characters with a blank after it, and the rest from the
next non-blank on.
-/
def wordAndGap? (s : Text) : Option (Text × Text) :=
  match s.takeWhile Text.isWord, s.dropWhile Text.isWord with
  | [], _ => none
  | _, [] => none
  | word, c :: rest => if Text.isBlank c then some (word, Text.trimStart rest) else none

/-- A hexadecimal number, and the rest. -/
def hexNumber? : Text → Option (Text × Text)
  | '0' :: x :: s =>
      if (x = 'x' ∨ x = 'X') ∧ s.takeWhile isHexDigit ≠ [] then
        some ('0' :: x :: s.takeWhile isHexDigit, s.dropWhile isHexDigit)
      else none
  | _ => none

/-- The text without one carriage return at its front. -/
def dropLeadingReturn : Text → Text
  | '\r' :: s => s
  | s => s

/-- What is left at the end of a line after spaces, tabs and one carriage return. -/
def lineEnd? (s : Text) : Option Text :=
  match dropLeadingReturn (s.dropWhile Text.isSpaceOrTab) with
  | [] => some []
  | c :: rest => if c = '\n' then some (c :: rest) else none

/-- The name and value of the definition at the front of a text, and the rest. -/
def definitionAt? (lead s : Text) : Option ((Text × Text) × Text) :=
  (Text.stripLead? "#define".toList s).bind fun afterWord =>
    (afterGap? lead afterWord).bind fun afterLead =>
      (wordAndGap? afterLead).bind fun (word, beforeValue) =>
        (hexNumber? beforeValue).bind fun (value, afterValue) =>
          (lineEnd? afterValue).map fun rest => ((lead ++ word, value), rest)

theorem afterGap?_suffix {lead s rest : Text} (h : afterGap? lead s = some rest) :
    rest <:+ s := by
  simp only [afterGap?] at h
  split at h
  · have hLead := Text.stripLead?_eq_some_iff.mp h
    exact (hLead ▸ List.suffix_append _ rest).trans (List.dropWhile_suffix _)
  · simp at h

theorem wordAndGap?_suffix {s word rest : Text} (h : wordAndGap? s = some (word, rest)) :
    rest <:+ s := by
  unfold wordAndGap? at h
  split at h
  · simp at h
  · simp at h
  · rename_i c tail hTail _
    split at h
    · simp only [Option.some.injEq, Prod.mk.injEq] at h
      obtain ⟨_, rfl⟩ := h
      exact (List.dropWhile_suffix _).trans ((List.suffix_cons c tail).trans
        (hTail ▸ List.dropWhile_suffix _))
    · simp at h

theorem hexNumber?_suffix {s value rest : Text} (h : hexNumber? s = some (value, rest)) :
    rest <:+ s := by
  unfold hexNumber? at h
  split at h
  · rename_i x tail
    split at h
    · simp only [Option.some.injEq, Prod.mk.injEq] at h
      obtain ⟨_, rfl⟩ := h
      exact (List.dropWhile_suffix _).trans
        ((List.suffix_cons x tail).trans (List.suffix_cons '0' _))
    · simp at h
  · simp at h

theorem dropLeadingReturn_suffix (s : Text) : dropLeadingReturn s <:+ s := by
  unfold dropLeadingReturn
  split
  · exact List.suffix_cons _ _
  · exact List.suffix_rfl

theorem lineEnd?_suffix {s rest : Text} (h : lineEnd? s = some rest) : rest <:+ s := by
  have hTail := (dropLeadingReturn_suffix (s.dropWhile Text.isSpaceOrTab)).trans
    (List.dropWhile_suffix Text.isSpaceOrTab)
  unfold lineEnd? at h
  split at h
  · cases h
    exact List.nil_suffix
  · rename_i c tail hEnd
    split at h
    · cases h
      exact hEnd ▸ hTail
    · simp at h

theorem definitionAt?_suffix {lead s rest : Text} {found : Text × Text}
    (h : definitionAt? lead s = some (found, rest)) :
    ∃ tail, s = "#define".toList ++ tail ∧ rest <:+ tail := by
  obtain ⟨afterWord, hWord, h⟩ := Option.bind_eq_some_iff.mp h
  obtain ⟨afterLead, hLead, h⟩ := Option.bind_eq_some_iff.mp h
  obtain ⟨⟨word, beforeValue⟩, hName, h⟩ := Option.bind_eq_some_iff.mp h
  obtain ⟨⟨value, afterValue⟩, hValue, h⟩ := Option.bind_eq_some_iff.mp h
  obtain ⟨tail, hEnd, h⟩ := Option.map_eq_some_iff.mp h
  simp only [Prod.mk.injEq] at h
  obtain ⟨_, rfl⟩ := h
  exact ⟨afterWord, Text.stripLead?_eq_some_iff.mp hWord,
    (lineEnd?_suffix hEnd).trans ((hexNumber?_suffix hValue).trans
      ((wordAndGap?_suffix hName).trans (afterGap?_suffix hLead)))⟩

/-- Recognises a definition of a macro whose name begins with `lead`, as name and value. -/
def definition (lead : Text) : Recogniser (Text × Text) where
  read _ s := definitionAt? lead s
  suffix h := by
    obtain ⟨tail, rfl, hRest⟩ := definitionAt?_suffix h
    exact hRest.trans (List.suffix_append _ _)
  shorter h := by
    obtain ⟨tail, rfl, hRest⟩ := definitionAt?_suffix h
    have hLength := hRest.length_le
    have hWord : "#define".toList.length = 7 := rfl
    rw [List.length_append]
    omega

end ValueNames.MacroGroup
