import ValueNames.MacroGroup.Definition
import ValueNames.Proofs.Text.SearchReturns

/-!
# Definitions of macros without carriage returns

A definition may have line ends between its parts, and ends with its line, which may have a
carriage return. A lead without line feeds is read the same in both cases. If it holds a
carriage return, no macro has it.

## Main results

* `definitionAt?_bare` — the same definition is read.
* `blind_definition` — the same definitions are found.
-/

namespace ValueNames

open Text

namespace MacroGroup

variable {lead s : Text}

/-- Blanks before the lead may be line ends, but those of the lead are none. -/
theorem afterGap?_bare (hReturn : '\r' ∉ lead) (hFeed : '\n' ∉ lead) (h : Paired s) :
    afterGap? lead (bare s) = (afterGap? lead s).map bare := by
  have hBlanks : ∀ c ∈ lead.takeWhile isBlank, c ∈ lead := fun c hc =>
    (List.takeWhile_sublist _).mem hc
  have hName : ∀ c ∈ lead.dropWhile isBlank, c ∈ lead := fun c hc =>
    (List.dropWhile_suffix _).mem hc
  have hGap := (h.takeWhile isBlank_lineEnd).isSuffix_bare_iff
    (fun hMem => hReturn (hBlanks _ hMem)) fun hMem => hFeed (hBlanks _ hMem)
  simp only [afterGap?, ← bare_takeWhile isBlank_lineEnd h, ← bare_dropWhile isBlank_lineEnd h,
    List.isSuffixOf_iff_suffix, hGap]
  split
  · exact stripLead?_bare (fun hMem => hReturn (hName _ hMem)) (fun hMem => hFeed (hName _ hMem))
      (h.of_suffix (List.dropWhile_suffix _))
  · rfl

/-- The gap behind a name may begin with a line end. -/
theorem wordAndGap?_bare (h : Paired s) :
    wordAndGap? (bare s) = (wordAndGap? s).map fun (word, rest) => (word, bare rest) := by
  have hWord := isWord_lineEnd
  unfold wordAndGap?
  rw [takeWhile_bare hWord.1 hWord.2 h, ← bare_dropWhile (hWord.1.trans hWord.2.symm) h]
  have hBehind := h.of_suffix (List.dropWhile_suffix isWord)
  generalize s.dropWhile isWord = rest at hBehind
  cases s.takeWhile isWord with
  | nil => rfl
  | cons first word =>
      cases hBehind with
      | nil => rfl
      | @char c rest hc _ =>
          rw [bare_cons hc]
          show (if isBlank c = true then _ else _) =
            (if isBlank c = true then _ else _ : Option (Text × Text)).map _
          split
          · rw [trimStart_bare]
            rfl
          · rfl
      | @lineEnd rest _ =>
          show some (first :: word, trimStart (bare rest)) =
            some (first :: word, bare (trimStart ('\n' :: rest)))
          rw [← trimStart_bare]
          rfl

theorem hexNumber?_bare (h : Paired s) :
    hexNumber? (bare s) = (hexNumber? s).map fun (value, rest) => (value, bare rest) := by
  have hDigit : isHexDigit '\r' = false ∧ isHexDigit '\n' = false := by decide
  cases h with
  | nil => rfl
  | @char c s hc hs =>
      rw [bare_cons hc]
      by_cases hZero : c = '0'
      · subst hZero
        cases hs with
        | nil => rfl
        | @char x s hx hs =>
            rw [bare_cons hx, hexNumber?, hexNumber?, takeWhile_bare hDigit.1 hDigit.2 hs,
              ← bare_dropWhile (hDigit.1.trans hDigit.2.symm) hs]
            split
            · rfl
            · rfl
        | lineEnd _ => simp [bare_cons, hexNumber?]
      · simp [hexNumber?, hZero]
  | lineEnd _ => rfl

/-- A carriage return at the end of a line is left out. -/
theorem lineEnd?_bare (h : Paired s) : lineEnd? (bare s) = (lineEnd? s).map bare := by
  have hBehind := h.of_suffix (List.dropWhile_suffix isSpaceOrTab)
  unfold lineEnd?
  rw [← bare_dropWhile rfl h]
  generalize s.dropWhile isSpaceOrTab = rest at hBehind
  cases hBehind with
  | nil => rfl
  | @char c rest hc _ =>
      have hDrop : ∀ t : Text, dropLeadingReturn (c :: t) = c :: t := by
        intro t
        unfold dropLeadingReturn
        split
        · rename_i hSame
          exact absurd (List.cons.inj hSame).1 hc
        · rfl
      rw [bare_cons hc, hDrop, hDrop]
      show (if c = '\n' then _ else _) = (if c = '\n' then _ else _ : Option Text).map _
      split
      · rw [Option.map_some, bare_cons hc]
      · rfl
  | lineEnd _ => rfl

/-- The name of a macro goes on behind the lead. -/
theorem exists_lead_of_definitionAt? {found : Text × Text} {rest : Text}
    (h : definitionAt? lead s = some (found, rest)) :
    ∃ front c back, s = front ++ (lead ++ c :: back) ∧ isWord c = true := by
  obtain ⟨afterWord, hWord, h⟩ := Option.bind_eq_some_iff.mp h
  obtain ⟨afterLead, hLead, h⟩ := Option.bind_eq_some_iff.mp h
  obtain ⟨⟨word, beforeValue⟩, hName, _⟩ := Option.bind_eq_some_iff.mp h
  obtain ⟨c, back, rfl, hc⟩ : ∃ c back, afterLead = c :: back ∧ isWord c = true := by
    cases afterLead with
    | nil => cases hName
    | cons c back =>
        refine ⟨c, back, rfl, ?_⟩
        cases hc : isWord c with
        | true => rfl
        | false => simp [wordAndGap?, hc] at hName
  simp only [afterGap?] at hLead
  split at hLead
  · rename_i hGap
    obtain ⟨gap, hBlanks⟩ := List.isSuffixOf_iff_suffix.mp hGap.2
    have hAfter := List.takeWhile_append_dropWhile (p := isBlank) (l := afterWord)
    rw [← hBlanks, stripLead?_eq_some_iff.mp hLead] at hAfter
    have hOwn : lead.takeWhile isBlank ++ (lead.dropWhile isBlank ++ c :: back) =
        lead ++ c :: back := by
      rw [← List.append_assoc, List.takeWhile_append_dropWhile]
    refine ⟨"#define".toList ++ gap, c, back, ?_, hc⟩
    rw [stripLead?_eq_some_iff.mp hWord, ← hAfter, List.append_assoc, hOwn, List.append_assoc]
  · cases hLead

/-- A lead with a carriage return and no line feed names no macros. -/
theorem definitionAt?_eq_none (hReturn : '\r' ∈ lead) (hFeed : '\n' ∉ lead) (h : Paired s) :
    definitionAt? lead s = none := by
  cases hRead : definitionAt? lead s with
  | none => rfl
  | some found =>
      exfalso
      obtain ⟨front, c, back, rfl, hc⟩ := exists_lead_of_definitionAt? hRead
      obtain ⟨before, behind, rfl⟩ := List.append_of_mem hReturn
      have hBehind : Paired ('\r' :: (behind ++ c :: back)) := by
        refine h.of_suffix ⟨front ++ before, ?_⟩
        simp
      obtain ⟨next, hNext⟩ := hBehind.exists_of_return
      cases behind with
      | nil =>
          obtain rfl : c = '\n' := (List.cons.inj hNext).1
          rw [isWord_lineEnd.2] at hc
          cases hc
      | cons d behind =>
          obtain rfl : d = '\n' := (List.cons.inj hNext).1
          simp at hFeed

theorem definitionAt?_bare (hFeed : '\n' ∉ lead) (h : Paired s) :
    definitionAt? lead (bare s) =
      (definitionAt? lead s).map fun (found, rest) => (found, bare rest) := by
  by_cases hReturn : '\r' ∈ lead
  · rw [definitionAt?_eq_none hReturn hFeed h,
      definitionAt?_eq_none hReturn hFeed (.of_not_mem (not_mem_bare s))]
    rfl
  unfold definitionAt?
  rw [stripLead?_bare (by decide) (by decide) h]
  cases hWord : stripLead? "#define".toList s with
  | none => rfl
  | some afterWord =>
      have hAfter : Paired afterWord := h.of_suffix ⟨_, (stripLead?_eq_some_iff.mp hWord).symm⟩
      simp only [Option.map_some, Option.bind_some, afterGap?_bare hReturn hFeed hAfter]
      cases hLead : afterGap? lead afterWord with
      | none => rfl
      | some afterLead =>
          have hBehind := hAfter.of_suffix (afterGap?_suffix hLead)
          simp only [Option.map_some, Option.bind_some, wordAndGap?_bare hBehind]
          cases hName : wordAndGap? afterLead with
          | none => rfl
          | some named =>
              obtain ⟨word, beforeValue⟩ := named
              have hBefore := hBehind.of_suffix (wordAndGap?_suffix hName)
              simp only [Option.map_some, Option.bind_some, hexNumber?_bare hBefore]
              cases hValue : hexNumber? beforeValue with
              | none => rfl
              | some valued =>
                  obtain ⟨value, afterValue⟩ := valued
                  have hLast := hBefore.of_suffix (hexNumber?_suffix hValue)
                  simp only [Option.map_some, Option.bind_some, lineEnd?_bare hLast,
                    Option.map_map]
                  rfl

/-- Definitions are read the same without carriage returns. -/
theorem blind_definition (hFeed : '\n' ∉ lead) : (definition lead).Blind id where
  read_return _ _ := rfl
  read_newline _ _ := rfl
  read_bare _ _ h := definitionAt?_bare hFeed h

end MacroGroup

end ValueNames
