import ValueNames.Proofs.Enumeration.Reading
import ValueNames.Proofs.Text.SearchReturns

/-!
# Declarations without carriage returns

Between the parts of a declaration a carriage return is one blank more. In its body the
carriage returns are at the ends of lines, and no name is read from there.

## Main results

* `declarationAt?_bare` — the same declaration is read.
* `blind_declaration` — the same declarations are found.
* `ofParts_bare` — they make the same enumerations.
-/

namespace ValueNames

open Text

namespace Enumeration

variable {s : Text}

/-- The declaration without the carriage returns of its body. -/
def Declaration.bare (found : Declaration) : Declaration :=
  { found with body := Text.bare found.body }

/-- Line ends around a name are blanks. -/
theorem nameUpTo?_bare {mark : Char} (hReturn : mark ≠ '\r') (hFeed : mark ≠ '\n')
    (h : Paired s) :
    nameUpTo? mark (bare s) =
      (nameUpTo? mark s).map fun (name, rest) => (name, bare rest) := by
  have hStart : Paired (trimStart s) := h.of_suffix (List.dropWhile_suffix _)
  have hBehind := hStart.of_suffix (List.dropWhile_suffix isWord)
  have hRest : Paired (trimStart ((trimStart s).dropWhile isWord)) :=
    hBehind.of_suffix (List.dropWhile_suffix _)
  have hSame := isWord_lineEnd.1.trans isWord_lineEnd.2.symm
  simp only [nameUpTo?, trimStart_bare, takeWhile_bare isWord_lineEnd.1 isWord_lineEnd.2 hStart,
    ← bare_dropWhile hSame hStart]
  generalize trimStart ((trimStart s).dropWhile isWord) = rest at hRest
  cases hRest with
  | nil => rfl
  | @char c rest hc _ =>
      rw [bare_cons hc]
      show (if c = mark then _ else _) = (if c = mark then _ else _ : Option (Text × Text)).map _
      split
      · rfl
      · rfl
  | lineEnd _ => simp [bare_cons, hReturn.symm, hFeed.symm]

/-- The lines of a body stay its lines. -/
theorem bodyUpToBrace?_bare (s : Text) :
    bodyUpToBrace? (bare s) =
      (bodyUpToBrace? s).map fun (body, rest) => (bare body, bare rest) := by
  have hReturn : decide ('\r' ≠ closingBrace) = true := by decide
  simp only [bodyUpToBrace?, trimStart_bare,
    ← bare_takeWhile_of_pos (p := fun c => decide (c ≠ closingBrace)) hReturn,
    ← bare_dropWhile_of_pos (p := fun c => decide (c ≠ closingBrace)) hReturn]
  have hHead := List.head?_dropWhile_not (· ≠ closingBrace) (trimStart s)
  cases hRest : (trimStart s).dropWhile (· ≠ closingBrace) with
  | nil => rfl
  | cons c rest =>
      obtain rfl : c = closingBrace := by
        rw [hRest] at hHead
        simpa using hHead
      rw [bare_cons (by decide)]
      rfl

theorem startsInWord_bare (h : Paired s) : startsInWord (bare s) = startsInWord s := by
  cases h with
  | nil => rfl
  | char hc _ =>
      rw [bare_cons hc]
      rfl
  | lineEnd _ =>
      show isWord '\n' = isWord '\r'
      rw [isWord_lineEnd.1, isWord_lineEnd.2]

theorem declarationAt?_bare (before : Option Char) (h : Paired s) :
    declarationAt? before (bare s) =
      (declarationAt? before s).map fun (found, rest) => (found.bare, bare rest) := by
  unfold declarationAt?
  split
  · rfl
  rw [stripLead?_bare (by decide) (by decide) h]
  cases hWord : stripLead? "enum".toList s with
  | none => rfl
  | some afterWord =>
      have hAfter : Paired afterWord := h.of_suffix ⟨_, (stripLead?_eq_some_iff.mp hWord).symm⟩
      simp only [Option.map_some, Option.bind_some, startsInWord_bare hAfter]
      split
      · rfl
      rw [nameUpTo?_bare (by decide) (by decide) hAfter]
      cases hTag : nameUpTo? openingBrace afterWord with
      | none => rfl
      | some named =>
          obtain ⟨tag, inside⟩ := named
          have hInside := hAfter.of_suffix (nameUpTo?_suffix hTag)
          simp only [Option.map_some, Option.bind_some, bodyUpToBrace?_bare]
          cases hBody : bodyUpToBrace? inside with
          | none => rfl
          | some closed =>
              obtain ⟨body, outside⟩ := closed
              have hOutside := hInside.of_suffix (bodyUpToBrace?_suffix hBody)
              simp only [Option.map_some, Option.bind_some,
                nameUpTo?_bare (by decide : ';' ≠ '\r') (by decide) hOutside, Option.map_map]
              rfl

/-- A body is cut between no two characters of a line end. -/
theorem paired_body {before : Option Char} {rest : Text} {found : Declaration} (h : Paired s)
    (hRead : declarationAt? before s = some (found, rest)) : Paired found.body := by
  obtain ⟨_, first, second, third, rfl, hWritten⟩ := declarationAt?_eq_some_iff.mp hRead
  rw [hWritten.body.1]
  have hSecond : Paired (second ++ closingBrace :: (third ++ ';' :: rest)) :=
    h.of_append_right.of_append_right.tail
  exact (hSecond.of_append_cons (by decide)).of_suffix (List.dropWhile_suffix _)

/-- Declarations are read the same without carriage returns. -/
theorem blind_declaration : declaration.Blind Declaration.bare where
  read_return before s := by
    show declarationAt? before ('\r' :: s) = none
    unfold declarationAt?
    split
    · rfl
    · rfl
  read_newline before s := by
    show declarationAt? before ('\n' :: s) = none
    unfold declarationAt?
    split
    · rfl
    · rfl
  read_bare before _ h := declarationAt?_bare before h

/-- The carriage returns in a body are at ends of its lines, where they do not count. -/
theorem ofParts_bare {tag body typedefName : Text} (source : Text) (span : Span)
    (hBody : Paired body) :
    ofParts tag (bare body) typedefName (span.bareIn source) =
      bareResult source (Enumeration.bareIn source)
        (ofParts tag body typedefName span) := by
  have hEntries : entries (bare body) = entries body := by
    rw [entries, entries, lines_bare hBody]
  unfold ofParts
  rw [allBlank_bare, hEntries]
  split
  · rfl
  · split
    · rfl
    · split
      · rfl
      · rfl

end Enumeration

end ValueNames
