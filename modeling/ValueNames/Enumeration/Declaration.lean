import ValueNames.Enumeration.Basic
import ValueNames.Text.Search
import ValueNames.Text.Word

/-!
# Declarations of enumerations in a text

A declaration is the word `enum`, a tag that may be missing, a body in braces
that holds no closing brace, a typedef name that may be missing, and a semicolon.
Blanks may stand between any two of these.

## Main results

* `declarationAt?_suffix` — a declaration is read off the front of the text.
-/

namespace ValueNames.Enumeration

/-- The names and the body text of a declaration. -/
structure Declaration where
  tag : Text
  /-- The text between the braces from its first character that is not blank. -/
  body : Text
  typedefName : Text
deriving DecidableEq, Repr

def openingBrace : Char := '\x7b'

def closingBrace : Char := '\x7d'

/-- A possibly missing name among blanks, up to and with the character `mark`. -/
def nameUpTo? (mark : Char) (s : Text) : Option (Text × Text) :=
  let name := (Text.trimStart s).takeWhile Text.isWord
  match Text.trimStart ((Text.trimStart s).dropWhile Text.isWord) with
  | [] => none
  | c :: rest => if c = mark then some (name, rest) else none

/-- The text of a body up to the closing brace, without blanks before it. -/
def bodyUpToBrace? (s : Text) : Option (Text × Text) :=
  let body := (Text.trimStart s).takeWhile (· ≠ closingBrace)
  match (Text.trimStart s).dropWhile (· ≠ closingBrace) with
  | [] => none
  | _ :: rest => some (body, rest)

/-- Whether a word goes on with the first character of a text. -/
def startsInWord (s : Text) : Bool := s.head?.any Text.isWord

/-- The declaration at the front of a text, and the rest. -/
def declarationAt? (before : Option Char) (s : Text) : Option (Declaration × Text) :=
  if before.any Text.isWord then none
  else
    (Text.stripLead? "enum".toList s).bind fun afterWord =>
      if startsInWord afterWord then none
      else
        (nameUpTo? openingBrace afterWord).bind fun (tag, inside) =>
          (bodyUpToBrace? inside).bind fun (body, outside) =>
            (nameUpTo? ';' outside).map fun (typedefName, rest) => (⟨tag, body, typedefName⟩, rest)

theorem nameUpTo?_suffix {mark : Char} {s name rest : Text}
    (h : nameUpTo? mark s = some (name, rest)) : rest <:+ s := by
  simp only [nameUpTo?] at h
  split at h
  · simp at h
  · rename_i c tail hTail
    split at h
    · simp only [Option.some.injEq, Prod.mk.injEq] at h
      obtain ⟨_, rfl⟩ := h
      have hMark : c :: tail <:+ s :=
        hTail ▸ (List.dropWhile_suffix _).trans
          ((List.dropWhile_suffix _).trans (List.dropWhile_suffix _))
      exact (List.suffix_cons c tail).trans hMark
    · simp at h

theorem bodyUpToBrace?_suffix {s body rest : Text}
    (h : bodyUpToBrace? s = some (body, rest)) : rest <:+ s := by
  simp only [bodyUpToBrace?] at h
  split at h
  · simp at h
  · rename_i c tail hTail
    simp only [Option.some.injEq, Prod.mk.injEq] at h
    obtain ⟨_, rfl⟩ := h
    have hBrace : c :: tail <:+ s :=
      hTail ▸ (List.dropWhile_suffix _).trans (List.dropWhile_suffix _)
    exact (List.suffix_cons c tail).trans hBrace

theorem declarationAt?_suffix {before : Option Char} {s rest : Text} {found : Declaration}
    (h : declarationAt? before s = some (found, rest)) :
    ∃ tail, s = "enum".toList ++ tail ∧ rest <:+ tail := by
  unfold declarationAt? at h
  split at h
  · simp at h
  · obtain ⟨afterWord, hWord, h⟩ := Option.bind_eq_some_iff.mp h
    split at h
    · simp at h
    · obtain ⟨⟨tag, inside⟩, hTag, h⟩ := Option.bind_eq_some_iff.mp h
      obtain ⟨⟨body, outside⟩, hBody, h⟩ := Option.bind_eq_some_iff.mp h
      obtain ⟨⟨typedefName, tail⟩, hTypedefName, h⟩ := Option.map_eq_some_iff.mp h
      simp only [Prod.mk.injEq] at h
      obtain ⟨_, rfl⟩ := h
      exact ⟨afterWord, Text.stripLead?_eq_some_iff.mp hWord,
        (nameUpTo?_suffix hTypedefName).trans ((bodyUpToBrace?_suffix hBody).trans
          (nameUpTo?_suffix hTag))⟩

/-- Recognises a declaration of an enumeration. -/
def declaration : Recogniser Declaration where
  read := declarationAt?
  suffix h := by
    obtain ⟨tail, rfl, hRest⟩ := declarationAt?_suffix h
    exact hRest.trans (List.suffix_append _ _)
  shorter h := by
    obtain ⟨tail, rfl, hRest⟩ := declarationAt?_suffix h
    have hLength := hRest.length_le
    have hWord : "enum".toList.length = 4 := rfl
    rw [List.length_append]
    omega

end ValueNames.Enumeration
