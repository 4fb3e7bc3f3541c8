import ValueNames.Json.Value

/-!
# JSON tokens

A JSON text is cut into tokens: brackets, separators, and the values that are
not put together from others. Only spaces, tabs, line feeds and carriage
returns may stand between tokens.

## Main results

* `token?_shorter` — a token takes something off the text.
-/

namespace ValueNames.Json

/-- The smallest units of a JSON text. -/
inductive Token
  | openArray
  | closeArray
  | openObject
  | closeObject
  | comma
  | colon
  /-- A value without parts. -/
  | atom (value : Json)

/-- The characters that may stand between tokens. -/
def isGap (c : Char) : Bool := c = ' ' || c = '\t' || c = '\n' || c = '\r'

/-! ## Numbers -/

/-- What follows a nonempty run of digits. -/
def afterDigits? : Text → Option Text
  | [] => none
  | c :: s => if c.isDigit then some (s.dropWhile Char.isDigit) else none

/-- What follows the digits before the point; a zero stands alone. -/
def afterInteger? : Text → Option Text
  | [] => none
  | c :: s =>
      if c = '0' then some s else if c.isDigit then some (s.dropWhile Char.isDigit) else none

/-- What follows a fraction, if there is one. -/
def afterFraction? : Text → Option Text
  | '.' :: s => afterDigits? s
  | s => some s

/-- The text without a sign at its front. -/
def dropSign : Text → Text
  | '+' :: s => s
  | '-' :: s => s
  | s => s

/-- What follows an exponent, if there is one. -/
def afterExponent? : Text → Option Text
  | 'e' :: s => afterDigits? (dropSign s)
  | 'E' :: s => afterDigits? (dropSign s)
  | s => some s

/-- What follows a number. -/
def afterNumber? : Text → Option Text
  | '-' :: s => ((afterInteger? s).bind afterFraction?).bind afterExponent?
  | s => ((afterInteger? s).bind afterFraction?).bind afterExponent?

/-! ## Strings -/

/-- What can stand in a string: a character, or the number of a UTF-16 unit. -/
inductive StringItem
  | char (c : Char)
  | unit (n : Nat)

/-- The value of a hexadecimal digit. -/
def hexValue? (c : Char) : Option Nat :=
  if '0' ≤ c ∧ c ≤ '9' then some (c.toNat - '0'.toNat)
  else if 'a' ≤ c ∧ c ≤ 'f' then some (c.toNat - 'a'.toNat + 10)
  else if 'A' ≤ c ∧ c ≤ 'F' then some (c.toNat - 'A'.toNat + 10)
  else none

/-- The number that hexadecimal digits write, highest first. -/
def hexNumber? (digits : List Char) : Option Nat :=
  digits.foldlM (fun n c => (hexValue? c).map (16 * n + ·)) 0

/-- The character that a backslash and another character stand for. -/
def escaped? : Char → Option Char
  | '"' => some '"'
  | '\\' => some '\\'
  | '/' => some '/'
  | 'b' => some '\x08'
  | 'f' => some '\x0c'
  | 'n' => some '\n'
  | 'r' => some '\r'
  | 't' => some '\t'
  | _ => none

/-- The items of a string up to its closing quote, and the rest. -/
def stringItems? : Text → Option (List StringItem × Text)
  | [] => none
  | '"' :: s => some ([], s)
  | '\\' :: 'u' :: a :: b :: c :: d :: s =>
      (hexNumber? [a, b, c, d]).bind fun n =>
        (stringItems? s).map fun (items, rest) => (.unit n :: items, rest)
  | '\\' :: c :: s =>
      (escaped? c).bind fun meant =>
        (stringItems? s).map fun (items, rest) => (.char meant :: items, rest)
  | c :: s =>
      if c = '\\' ∨ c.toNat < 0x20 then none
      else (stringItems? s).map fun (items, rest) => (.char c :: items, rest)

/-- Whether a UTF-16 unit is the first half of a surrogate pair. -/
def isHighHalf (n : Nat) : Bool := 0xD800 ≤ n && n < 0xDC00

/-- Whether a UTF-16 unit is the second half of a surrogate pair. -/
def isLowHalf (n : Nat) : Bool := 0xDC00 ≤ n && n < 0xE000

/-- The text of some string items, if every half of a surrogate pair has its other half. -/
def textOfItems? : List StringItem → Option Text
  | [] => some []
  | .char c :: items => (textOfItems? items).map (c :: ·)
  | .unit high :: .unit low :: items =>
      if isHighHalf high then
        if isLowHalf low then
          (textOfItems? items).map
            (Char.ofNat (0x10000 + (high - 0xD800) * 0x400 + (low - 0xDC00)) :: ·)
        else none
      else if isLowHalf high then none
      else (textOfItems? (.unit low :: items)).map (Char.ofNat high :: ·)
  | .unit n :: items =>
      if isHighHalf n || isLowHalf n then none else (textOfItems? items).map (Char.ofNat n :: ·)

/-! ## Tokens -/

/-- A word that stands for a value, and what follows it. -/
def word? (s : Text) : Option (Token × Text) :=
  [("null".toList, Json.null), ("true".toList, .bool true), ("false".toList, .bool false)].findSome?
    fun (word, value) => (Text.stripLead? word s).map fun rest => (.atom value, rest)

/-- A number or word, and what follows it. -/
def numberOrWord? (s : Text) : Option (Token × Text) :=
  match afterNumber? s with
  | some rest => some (.atom (.number (s.take (s.length - rest.length))), rest)
  | none => word? s

/-- The token that begins with `c`, and what follows it. -/
def token? (c : Char) (s : Text) : Option (Token × Text) :=
  match c with
  | '[' => some (.openArray, s)
  | ']' => some (.closeArray, s)
  | '\x7b' => some (.openObject, s)
  | '\x7d' => some (.closeObject, s)
  | ',' => some (.comma, s)
  | ':' => some (.colon, s)
  | '"' => (stringItems? s).map fun (items, rest) => (.atom (.string (textOfItems? items)), rest)
  | c => numberOrWord? (c :: s)

theorem afterDigits?_shorter {s rest : Text} (h : afterDigits? s = some rest) :
    rest.length < s.length := by
  cases s with
  | nil => cases h
  | cons c s =>
      simp only [afterDigits?] at h
      split at h
      · cases h
        have hDrop := (List.dropWhile_suffix Char.isDigit (l := s)).length_le
        simp only [List.length_cons]
        omega
      · cases h

theorem afterInteger?_shorter {s rest : Text} (h : afterInteger? s = some rest) :
    rest.length < s.length := by
  cases s with
  | nil => cases h
  | cons c s =>
      simp only [afterInteger?] at h
      split at h
      · cases h
        simp
      · split at h
        · cases h
          have hDrop := (List.dropWhile_suffix Char.isDigit (l := s)).length_le
          simp only [List.length_cons]
          omega
        · cases h

theorem afterFraction?_le {s rest : Text} (h : afterFraction? s = some rest) :
    rest.length ≤ s.length := by
  unfold afterFraction? at h
  split at h
  · have hDigits := afterDigits?_shorter h
    simp only [List.length_cons]
    omega
  · cases h
    exact Nat.le_refl _

theorem dropSign_le (s : Text) : (dropSign s).length ≤ s.length := by
  unfold dropSign
  split <;> simp

theorem afterExponent?_le {s rest : Text} (h : afterExponent? s = some rest) :
    rest.length ≤ s.length := by
  unfold afterExponent? at h
  split at h
  · rename_i s
    have hDigits := afterDigits?_shorter h
    have hSign := dropSign_le s
    simp only [List.length_cons]
    omega
  · rename_i s
    have hDigits := afterDigits?_shorter h
    have hSign := dropSign_le s
    simp only [List.length_cons]
    omega
  · cases h
    exact Nat.le_refl _

theorem afterNumber?_shorter {s rest : Text} (h : afterNumber? s = some rest) :
    rest.length < s.length := by
  have hParts : ∀ t : Text, ((afterInteger? t).bind afterFraction?).bind afterExponent? =
      some rest → rest.length < t.length := by
    intro t ht
    obtain ⟨tail, hTail, hExponent⟩ := Option.bind_eq_some_iff.mp ht
    obtain ⟨point, hInteger, hFraction⟩ := Option.bind_eq_some_iff.mp hTail
    have hInteger' := afterInteger?_shorter hInteger
    have hFraction' := afterFraction?_le hFraction
    have hExponent' := afterExponent?_le hExponent
    omega
  unfold afterNumber? at h
  split at h
  · have hTail := hParts _ h
    simp only [List.length_cons]
    omega
  · exact hParts _ h

theorem stringItems?_shorter {s rest : Text} {items : List StringItem}
    (h : stringItems? s = some (items, rest)) : rest.length < s.length := by
  fun_induction stringItems? s generalizing items rest with
  | case1 => cases h
  | case2 s =>
      cases h
      simp
  | case3 a b c d s ih =>
      obtain ⟨n, _, h⟩ := Option.bind_eq_some_iff.mp h
      obtain ⟨⟨items', rest'⟩, hRest, hEq⟩ := Option.map_eq_some_iff.mp h
      cases hEq
      have hLess := ih hRest
      simp only [List.length_cons]
      omega
  | case4 c s _ ih =>
      obtain ⟨meant, _, h⟩ := Option.bind_eq_some_iff.mp h
      obtain ⟨⟨items', rest'⟩, hRest, hEq⟩ := Option.map_eq_some_iff.mp h
      cases hEq
      have hLess := ih hRest
      simp only [List.length_cons]
      omega
  | case5 => cases h
  | case6 c s _ _ _ _ ih =>
      obtain ⟨⟨items', rest'⟩, hRest, hEq⟩ := Option.map_eq_some_iff.mp h
      cases hEq
      have hLess := ih hRest
      simp only [List.length_cons]
      omega

theorem numberOrWord?_shorter {s rest : Text} {token : Token}
    (h : numberOrWord? s = some (token, rest)) : rest.length < s.length := by
  unfold numberOrWord? at h
  split at h
  · rename_i tail hNumber
    cases h
    exact afterNumber?_shorter hNumber
  · obtain ⟨⟨word, value⟩, hMem, hWord⟩ := List.exists_of_findSome?_eq_some h
    obtain ⟨tail, hLead, hEq⟩ := Option.map_eq_some_iff.mp hWord
    cases hEq
    have hSplit := congrArg List.length (Text.stripLead?_eq_some_iff.mp hLead)
    have hWords : word = "null".toList ∨ word = "true".toList ∨ word = "false".toList := by
      simp only [List.mem_cons, Prod.mk.injEq, List.not_mem_nil, or_false] at hMem
      rcases hMem with hMem | hMem | hMem
      · exact .inl hMem.1
      · exact .inr (.inl hMem.1)
      · exact .inr (.inr hMem.1)
    rw [List.length_append] at hSplit
    have hPos : 0 < word.length := by rcases hWords with rfl | rfl | rfl <;> decide
    omega

theorem token?_shorter {c : Char} {s rest : Text} {token : Token}
    (h : token? c s = some (token, rest)) : rest.length < (c :: s).length := by
  unfold token? at h
  split at h
  case h_7 =>
    obtain ⟨⟨items, tail⟩, hItems, hEq⟩ := Option.map_eq_some_iff.mp h
    cases hEq
    have hLess := stringItems?_shorter hItems
    simp only [List.length_cons]
    omega
  case h_8 => exact numberOrWord?_shorter h
  all_goals
    cases h
    simp

/-- The tokens of a text, if it can be cut into tokens. -/
def tokens? : Text → Option (List Token)
  | [] => some []
  | c :: s =>
      if isGap c then tokens? s
      else
        match h : token? c s with
        | some (token, rest) =>
            have := token?_shorter h
            (tokens? rest).map (token :: ·)
        | none => none
termination_by s => s.length
decreasing_by
  · exact Nat.lt_succ_self _
  · exact this

end ValueNames.Json
