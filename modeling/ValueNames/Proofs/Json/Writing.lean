import ValueNames.Json.Reader
import ValueNames.Proofs.Json.Spelling

/-!
# Reading what was written

A value is written by its tokens: an array by its elements between brackets, an object by its
members between braces, with commas between them. The reader puts such tokens together again.
While it reads a value it only adds to what is open, so that the elements and members around
the value do not matter, and neither does the depth of the nesting.

## Main results

* `foldlM_tokens` — the tokens of a value supply the value to what is open.
* `read?_of_written` — a value is read back from every text that writes it.
-/

namespace ValueNames.Json

/-! ## The tokens of a value -/

mutual

/-- The tokens that write a value. -/
def tokens : Json → List Token
  | array [] => [.openArray, .closeArray]
  | array (first :: others) =>
      .openArray :: (tokens first ++ (elementTokens others ++ [.closeArray]))
  | object [] => [.openObject, .closeObject]
  | object ((name, value) :: others) =>
      .openObject :: .atom (.string name) :: .colon ::
        (tokens value ++ (memberTokens others ++ [.closeObject]))
  | value => [.atom value]

/-- The tokens that write elements after the first. -/
def elementTokens : List Json → List Token
  | [] => []
  | element :: others => .comma :: (tokens element ++ elementTokens others)

/-- The tokens that write members after the first. -/
def memberTokens : List (Option Text × Json) → List Token
  | [] => []
  | (name, value) :: others =>
      .comma :: .atom (.string name) :: .colon :: (tokens value ++ memberTokens others)

end

/-- Whether a text writes a value. -/
def Written (value : Json) (s : Text) : Prop := SpellsAll (tokens value) s

/-! ## Tokens next to each other -/

theorem atomsApart_cons {token : Token} {tokens : List Token} (hAtom : token.isAtom = false)
    (h : AtomsApart tokens) : AtomsApart (token :: tokens) := by
  rw [AtomsApart, List.isChain_cons]
  refine ⟨fun next _ hToken => ?_, h⟩
  rw [hAtom] at hToken
  cases hToken

/-- Tokens in front of which an atom can stand. -/
structure Separates (tokens : List Token) : Prop where
  head : ∀ token ∈ tokens.head?, token.isAtom = false
  apart : AtomsApart tokens

theorem separates_cons {token : Token} {tokens : List Token} (hAtom : token.isAtom = false)
    (h : AtomsApart tokens) : Separates (token :: tokens) := by
  refine ⟨?_, atomsApart_cons hAtom h⟩
  rintro first ⟨⟩
  exact hAtom

theorem Separates.atom_cons {tokens : List Token} (h : Separates tokens) (value : Json) :
    AtomsApart (.atom value :: tokens) :=
  List.isChain_cons.mpr ⟨fun next hNext _ => h.head next hNext, h.apart⟩

mutual

theorem atomsApart_tokens (value : Json) {after : List Token} (h : Separates after) :
    AtomsApart (tokens value ++ after) := by
  match value with
  | array [] => exact atomsApart_cons rfl (atomsApart_cons rfl h.apart)
  | array (first :: others) =>
      have hClose : Separates (.closeArray :: after) := separates_cons rfl h.apart
      have hOthers := separates_elementTokens others hClose
      have hFirst := atomsApart_tokens first hOthers
      simp only [tokens, List.cons_append, List.append_assoc]
      exact atomsApart_cons rfl hFirst
  | object [] => exact atomsApart_cons rfl (atomsApart_cons rfl h.apart)
  | object ((name, value) :: others) =>
      have hClose : Separates (.closeObject :: after) := separates_cons rfl h.apart
      have hOthers := separates_memberTokens others hClose
      have hValue := atomsApart_tokens value hOthers
      have hColon : Separates (.colon :: _) := separates_cons rfl hValue
      simp only [tokens, List.cons_append, List.append_assoc]
      exact atomsApart_cons rfl (hColon.atom_cons _)
  | null | bool _ | number _ | string _ => exact h.atom_cons _

theorem separates_elementTokens (elements : List Json) {after : List Token}
    (h : Separates after) : Separates (elementTokens elements ++ after) := by
  match elements with
  | [] => exact h
  | element :: others =>
      have hElement := atomsApart_tokens element (separates_elementTokens others h)
      simp only [elementTokens, List.cons_append, List.append_assoc]
      exact separates_cons rfl hElement

theorem separates_memberTokens (members : List (Option Text × Json)) {after : List Token}
    (h : Separates after) : Separates (memberTokens members ++ after) := by
  match members with
  | [] => exact h
  | (name, value) :: others =>
      have hValue := atomsApart_tokens value (separates_memberTokens others h)
      have hColon : Separates (.colon :: _) := separates_cons rfl hValue
      simp only [memberTokens, List.cons_append, List.append_assoc]
      exact separates_cons rfl (hColon.atom_cons _)

end

/-! ## Reading the tokens of a value -/

mutual

/-- The tokens of a value supply the value to what is open, where a value can stand. -/
theorem foldlM_tokens (value : Json) {awaited : Awaited}
    (h : awaited = .value ∨ awaited = .elementOrEnd) (stack : List Frame) :
    (tokens value).foldlM Progress.step (.inside stack awaited) = supply value stack := by
  match value with
  | array [] => 
    simp [tokens, Progress.step, h]
  | array (first :: others) =>
      have hFirst := foldlM_tokens first (.inr rfl) (.array [] :: stack)
      have hOthers := foldlM_elementTokens others [first] stack
      simp [tokens, Progress.step, h, hFirst, hOthers, supply]
  | object [] => simp [tokens, Progress.step, h]
  | object ((name, value) :: others) =>
      have hFirst := foldlM_tokens value (.inl rfl) (.member [] name :: stack)
      have hOthers := foldlM_memberTokens others [(name, value)] stack
      simp [tokens, Progress.step, h, hFirst, hOthers, supply]
  | null | bool _ | number _ | string _ =>
      rcases h with rfl | rfl <;> simp [tokens, Progress.step]

theorem foldlM_elementTokens (elements done : List Json) (stack : List Frame) :
    (elementTokens elements).foldlM Progress.step (.inside (.array done :: stack) .separator) =
      some (.inside (.array (elements.reverse ++ done) :: stack) .separator) := by
  match elements with
  | [] => rfl
  | element :: others =>
      have hElement := foldlM_tokens element (.inl rfl) (.array done :: stack)
      have hOthers := foldlM_elementTokens others (element :: done) stack
      simp [elementTokens, Progress.step, hElement, hOthers, supply]

theorem foldlM_memberTokens (members done : List (Option Text × Json)) (stack : List Frame) :
    (memberTokens members).foldlM Progress.step (.inside (.object done :: stack) .separator) =
      some (.inside (.object (members.reverse ++ done) :: stack) .separator) := by
  match members with
  | [] => rfl
  | (name, value) :: others =>
      have hValue := foldlM_tokens value (.inl rfl) (.member done name :: stack)
      have hOthers := foldlM_memberTokens others ((name, value) :: done) stack
      simp [memberTokens, Progress.step, hValue, hOthers, supply]

end

theorem ofTokens?_tokens (value : Json) : ofTokens? (tokens value) = some value := by
  rw [ofTokens?, foldlM_tokens value (.inl rfl)]
  rfl

/-- A value is read back from a text that writes it. -/
theorem read?_of_written {value : Json} {s : Text} (h : Written value s) :
    read? s = some value := by
  have hSeparates : Separates [] := ⟨nofun, List.isChain_nil⟩
  have hApart := atomsApart_tokens value hSeparates
  rw [List.append_nil] at hApart
  rw [read?, tokens?_of_spellsAll h hApart]
  exact ofTokens?_tokens value

end ValueNames.Json
