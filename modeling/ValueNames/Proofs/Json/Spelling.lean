import Mathlib.Data.List.Chain
import ValueNames.Json.Token

/-!
# How JSON is written

The same value can be written in many ways: with gaps or without, a character as itself or by
an escape, an escape with digits of either case. What a JSON text may look like is said here
without the reader, number by number and character by character. What a string stands for is
told by UTF-16 units, because an escape names one of these: characters beyond the first plane
take two, and half of such a pair stands for nothing.

## Main results

* `textOfItems?_eq_some_iff` — a string stands for the text that has its units.
* `token?_of_spells` — a token is read in front of what does not continue it.
* `tokens?_of_spellsAll` — a text that spells tokens is cut into these tokens.
-/

namespace ValueNames

/-! ## UTF-16 -/

/-- The UTF-16 units of a character. -/
def Text.unitsOf (c : Char) : List Nat :=
  if c.toNat < 0x10000 then [c.toNat]
  else [0xD800 + (c.toNat - 0x10000) / 0x400, 0xDC00 + (c.toNat - 0x10000) % 0x400]

/-- The UTF-16 form of a text. -/
def Text.units (s : Text) : List Nat := s.flatMap unitsOf

namespace Text

variable {c : Char} {t : Text} {u : List Nat}

@[simp] theorem units_nil : units [] = [] := rfl

@[simp] theorem units_cons (c : Char) (s : Text) : units (c :: s) = unitsOf c ++ units s := rfl

theorem unitsOf_ne_nil (c : Char) : unitsOf c ≠ [] := by
  unfold unitsOf
  split <;> simp

/-- A character has a number that is not half of a surrogate pair. -/
theorem toNat_range (c : Char) : c.toNat < 0xD800 ∨ (0xDFFF < c.toNat ∧ c.toNat < 0x110000) :=
  c.valid

theorem toNat_ofNat {n : Nat} (h : n < 0xD800 ∨ (0xDFFF < n ∧ n < 0x110000)) :
    (Char.ofNat n).toNat = n := by
  rw [Char.ofNat, dif_pos h]
  rfl

theorem unitsOf_append_inj {c d : Char} {u v : List Nat} (h : unitsOf c ++ u = unitsOf d ++ v) :
    c = d ∧ u = v := by
  have hc := toNat_range c
  have hd := toNat_range d
  unfold unitsOf at h
  rw [← Char.toNat_inj]
  split at h <;> split at h <;>
    simp only [List.cons_append, List.nil_append, List.cons.injEq] at h
  · exact h
  · omega
  · omega
  · obtain ⟨hHigh, hLow, hRest⟩ := h
    exact ⟨by omega, hRest⟩

/-- The units of a text begin with those of a character when the text begins with it. -/
theorem unitsOf_append_eq_iff :
    unitsOf c ++ u = units t ↔ ∃ rest, u = units rest ∧ c :: rest = t := by
  constructor
  · intro h
    cases t with
    | nil => exact absurd (List.append_eq_nil_iff.mp h).1 (unitsOf_ne_nil c)
    | cons d t =>
        obtain ⟨rfl, hRest⟩ := unitsOf_append_inj h
        exact ⟨t, hRest, rfl⟩
  · rintro ⟨rest, rfl, rfl⟩
    rfl

end Text

namespace Json

variable {c : Char} {s rest : Text}

/-! ## The grammar of numbers -/

/-- A run of digits that is not empty. -/
def IsDigits (s : Text) : Prop := s ≠ [] ∧ s.all Char.isDigit = true

theorem IsDigits.isDigit (h : IsDigits s) (hc : c ∈ s) : c.isDigit = true :=
  List.all_eq_true.mp h.2 c hc

/-- The digits before the point: a zero, or digits that do not begin with one. -/
inductive IsInteger : Text → Prop
  | zero : IsInteger ['0']
  | digits {c : Char} {s : Text} (hZero : c ≠ '0') (hDigits : IsDigits (c :: s)) :
      IsInteger (c :: s)

/-- A point and digits, or nothing. -/
inductive IsFraction : Text → Prop
  | none : IsFraction []
  | digits {s : Text} (hDigits : IsDigits s) : IsFraction ('.' :: s)

/-- An exponent with or without a sign, or nothing. -/
inductive IsExponent : Text → Prop
  | none : IsExponent []
  | digits {mark : Char} {sign s : Text} (hMark : mark = 'e' ∨ mark = 'E')
      (hSign : sign = [] ∨ sign = ['+'] ∨ sign = ['-']) (hDigits : IsDigits s) :
      IsExponent (mark :: (sign ++ s))

/-- A number. -/
inductive IsNumber : Text → Prop
  | parts {sign integer fraction exponent : Text} (hSign : sign = [] ∨ sign = ['-'])
      (hInteger : IsInteger integer) (hFraction : IsFraction fraction)
      (hExponent : IsExponent exponent) : IsNumber (sign ++ (integer ++ (fraction ++ exponent)))

/-! ## The grammar of strings -/

/-- A hexadecimal digit of either case and its value. -/
def IsHexDigit (c : Char) (n : Nat) : Prop :=
  n < 16 ∧ (c = n.digitChar ∨ c = n.digitChar.toUpper)

instance (c : Char) (n : Nat) : Decidable (IsHexDigit c n) :=
  inferInstanceAs (Decidable (n < 16 ∧ (c = n.digitChar ∨ c = n.digitChar.toUpper)))

/-- Whether a character stands for itself in a string. -/
def isPlain (c : Char) : Bool := c ≠ '"' && c ≠ '\\' && 0x20 ≤ c.toNat

/-- The characters after a backslash, and what they stand for. -/
def shortEscapes : List (Char × Char) :=
  [('"', '"'), ('\\', '\\'), ('/', '/'), ('b', '\x08'), ('f', '\x0c'), ('n', '\n'),
   ('r', '\r'), ('t', '\t')]

/-- How an item of a string is written. -/
inductive SpellsItem : StringItem → Text → Prop
  | plain {c : Char} (hPlain : isPlain c = true) : SpellsItem (.char c) [c]
  | short {sign meant : Char} (hShort : (sign, meant) ∈ shortEscapes) :
      SpellsItem (.char meant) ['\\', sign]
  | unit {a b c d : Char} {w x y z : Nat} (ha : IsHexDigit a w) (hb : IsHexDigit b x)
      (hc : IsHexDigit c y) (hd : IsHexDigit d z) :
      SpellsItem (.unit (0x1000 * w + 0x100 * x + 0x10 * y + z)) ['\\', 'u', a, b, c, d]

/-- How the items of a string are written. -/
inductive SpellsItems : List StringItem → Text → Prop
  | nil : SpellsItems [] []
  | cons {item : StringItem} {items : List StringItem} {s t : Text} (hItem : SpellsItem item s)
      (hItems : SpellsItems items t) : SpellsItems (item :: items) (s ++ t)

/-- The UTF-16 units of an item. -/
def StringItem.units : StringItem → List Nat
  | char c => Text.unitsOf c
  | unit n => [n]

/-- What items stand for: the text with the same units, or nothing if there is no such text. -/
def StandFor (items : List StringItem) : Option Text → Prop
  | some t => items.flatMap StringItem.units = Text.units t
  | none => ∀ t, items.flatMap StringItem.units ≠ Text.units t

/-! ## The grammar of tokens -/

/-- How a token is written. -/
inductive Spells : Token → Text → Prop
  | openArray : Spells .openArray ['[']
  | closeArray : Spells .closeArray [']']
  | openObject : Spells .openObject ['\x7b']
  | closeObject : Spells .closeObject ['\x7d']
  | comma : Spells .comma [',']
  | colon : Spells .colon [':']
  | null : Spells (.atom .null) ['n', 'u', 'l', 'l']
  | yes : Spells (.atom (.bool true)) ['t', 'r', 'u', 'e']
  | no : Spells (.atom (.bool false)) ['f', 'a', 'l', 's', 'e']
  | number {s : Text} (hNumber : IsNumber s) : Spells (.atom (.number s)) s
  | string {items : List StringItem} {content : Option Text} {s : Text}
      (hItems : SpellsItems items s) (hContent : StandFor items content) :
      Spells (.atom (.string content)) ('"' :: (s ++ ['"']))

/-- A text of gaps. -/
def IsGaps (s : Text) : Prop := ∀ c ∈ s, c = ' ' ∨ c = '\t' ∨ c = '\n' ∨ c = '\r'

/-- Characters without a special meaning in strings are written as they are. -/
theorem spells_plain (h : s.all isPlain = true) :
    Spells (.atom (.string (some s))) ('"' :: (s ++ ['"'])) := by
  have hItems : SpellsItems (s.map .char) s := by
    induction s with
    | nil => exact .nil
    | cons c s ih =>
        rw [List.all_cons, Bool.and_eq_true] at h
        exact .cons (.plain h.1) (ih h.2)
  have hContent : StandFor (s.map .char) (some s) := by
    rw [StandFor, List.flatMap_map]
    rfl
  exact .string hItems hContent

/-- How tokens are written: one after the other, with gaps before, between and behind them. -/
inductive SpellsAll : List Token → Text → Prop
  | nil {gaps : Text} (hGaps : IsGaps gaps) : SpellsAll [] gaps
  | cons {token : Token} {tokens : List Token} {gaps s rest : Text} (hGaps : IsGaps gaps)
      (hToken : Spells token s) (hRest : SpellsAll tokens rest) :
      SpellsAll (token :: tokens) (gaps ++ (s ++ rest))

/-! ## Reading numbers -/

/-- Whether what follows a number does not continue it. -/
def EndsNumber (rest : Text) : Prop :=
  ∀ c ∈ rest.head?, c.isDigit = false ∧ c ≠ '.' ∧ c ≠ 'e' ∧ c ≠ 'E'

theorem dropWhile_isDigit_append (hDigits : ∀ c ∈ s, c.isDigit = true)
    (hRest : ∀ c ∈ rest.head?, c.isDigit = false) :
    (s ++ rest).dropWhile Char.isDigit = rest := by
  rw [List.dropWhile_append_of_pos hDigits]
  cases rest with
  | nil => rfl
  | cons c rest => exact List.dropWhile_cons_of_neg (by simp [hRest c rfl])

theorem afterDigits?_append (hDigits : IsDigits s) (hRest : ∀ c ∈ rest.head?, c.isDigit = false) :
    afterDigits? (s ++ rest) = some rest := by
  cases s with
  | nil => exact absurd rfl hDigits.1
  | cons c s =>
      have hTail := dropWhile_isDigit_append (fun d hd => hDigits.isDigit (.tail c hd)) hRest
      rw [List.cons_append, afterDigits?, if_pos (hDigits.isDigit (.head s)), hTail]

theorem afterInteger?_append (hInteger : IsInteger s)
    (hRest : ∀ c ∈ rest.head?, c.isDigit = false) : afterInteger? (s ++ rest) = some rest := by
  cases hInteger with
  | zero => rfl
  | @digits c s hZero hDigits =>
      have hTail := dropWhile_isDigit_append (fun d hd => hDigits.isDigit (.tail c hd)) hRest
      rw [List.cons_append, afterInteger?, if_neg hZero, if_pos (hDigits.isDigit (.head s)), hTail]

theorem afterFraction?_append (hFraction : IsFraction s)
    (hRest : ∀ c ∈ rest.head?, c.isDigit = false ∧ c ≠ '.') :
    afterFraction? (s ++ rest) = some rest := by
  cases hFraction with
  | none =>
      cases rest with
      | nil => rfl
      | cons c rest =>
          have hPoint := (hRest c rfl).2
          simp [afterFraction?, hPoint]
  | digits hDigits => exact afterDigits?_append hDigits fun c hc => (hRest c hc).1

/-- A sign is passed over, and digits do not begin with one. -/
theorem dropSign_append {sign : Text} (hSign : sign = [] ∨ sign = ['+'] ∨ sign = ['-'])
    (hDigits : IsDigits s) : dropSign (sign ++ s ++ rest) = s ++ rest := by
  rcases hSign with rfl | rfl | rfl
  · cases s with
    | nil => exact absurd rfl hDigits.1
    | cons c s =>
        have hDigit := hDigits.isDigit (.head s)
        have hPlus : c ≠ '+' := by rintro rfl; cases hDigit
        have hMinus : c ≠ '-' := by rintro rfl; cases hDigit
        simp [dropSign, hPlus, hMinus]
  · rfl
  · rfl

theorem afterExponent?_append (hExponent : IsExponent s) (hRest : EndsNumber rest) :
    afterExponent? (s ++ rest) = some rest := by
  cases hExponent with
  | none =>
      cases rest with
      | nil => rfl
      | cons c rest =>
          obtain ⟨_, _, hSmall, hCapital⟩ := hRest c rfl
          simp [afterExponent?, hSmall, hCapital]
  | @digits mark sign s hMark hSign hDigits =>
      have hTail : afterDigits? (dropSign (sign ++ s ++ rest)) = some rest := by
        rw [dropSign_append hSign hDigits]
        exact afterDigits?_append hDigits fun c hc => (hRest c hc).1
      rcases hMark with rfl | rfl
      · exact hTail
      · exact hTail

theorem afterNumber?_append (hNumber : IsNumber s) (hRest : EndsNumber rest) :
    afterNumber? (s ++ rest) = some rest := by
  obtain ⟨hSign, hInteger, hFraction, hExponent⟩ := hNumber
  rename_i sign integer fraction exponent
  -- An exponent does not continue the digits before it, and neither does a fraction.
  have hTail : ∀ c ∈ (exponent ++ rest).head?, c.isDigit = false ∧ c ≠ '.' := by
    cases hExponent with
    | none => exact fun c hc => ⟨(hRest c hc).1, (hRest c hc).2.1⟩
    | digits hMark => rcases hMark with rfl | rfl <;> rintro c ⟨⟩ <;> decide
  have hPoint : ∀ c ∈ (fraction ++ (exponent ++ rest)).head?, c.isDigit = false := by
    cases hFraction with
    | none => exact fun c hc => (hTail c hc).1
    | digits => rintro c ⟨⟩; decide
  have hUnsigned : ((afterInteger? (integer ++ (fraction ++ (exponent ++ rest)))).bind
      afterFraction?).bind afterExponent? = some rest := by
    rw [afterInteger?_append hInteger hPoint, Option.bind_some,
      afterFraction?_append hFraction hTail, Option.bind_some,
      afterExponent?_append hExponent hRest]
  simp only [List.append_assoc]
  rcases hSign with rfl | rfl
  · have hMinus : ∀ t, integer ++ (fraction ++ (exponent ++ rest)) ≠ '-' :: t := by
      cases hInteger with
      | zero => simp
      | digits _ hDigits =>
          rintro t hEq
          have hDigit := hDigits.isDigit (.head _)
          rw [(List.cons.inj hEq).1] at hDigit
          cases hDigit
    rw [List.nil_append, afterNumber?]
    · exact hUnsigned
    · exact hMinus
  · exact hUnsigned

/-- A number begins with its sign or with a digit. -/
theorem exists_head_of_isNumber (hNumber : IsNumber s) :
    ∃ c t, s = c :: t ∧ (c = '-' ∨ c.isDigit = true) := by
  obtain ⟨hSign, hInteger, _, _⟩ := hNumber
  rcases hSign with rfl | rfl
  · cases hInteger with
    | zero => exact ⟨'0', _, rfl, .inr rfl⟩
    | @digits c s _ hDigits => exact ⟨c, _, rfl, .inr (hDigits.isDigit (.head s))⟩
  · exact ⟨'-', _, rfl, .inl rfl⟩

/-! ## Reading strings -/

theorem hexValue?_of_isHexDigit {n : Nat} (h : IsHexDigit c n) : hexValue? c = some n := by
  obtain ⟨hLess, hDigit⟩ := h
  have hBoth : ∀ n < 16, hexValue? n.digitChar = some n ∧
      hexValue? n.digitChar.toUpper = some n := by decide
  rcases hDigit with rfl | rfl
  · exact (hBoth n hLess).1
  · exact (hBoth n hLess).2

theorem escaped?_of_mem {sign meant : Char} (h : (sign, meant) ∈ shortEscapes) :
    escaped? sign = some meant ∧ sign ≠ 'u' := by
  have hAll : shortEscapes.all (fun (sign, meant) => escaped? sign = some meant && sign ≠ 'u') =
      true := by decide
  simpa using List.all_eq_true.mp hAll _ h

theorem stringItems?_of_spellsItem {item : StringItem} (h : SpellsItem item s) (rest : Text) :
    stringItems? (s ++ rest) =
      (stringItems? rest).map fun (items, rest) => (item :: items, rest) := by
  cases h with
  | plain hPlain =>
      simp only [isPlain, Bool.and_eq_true, decide_eq_true_eq] at hPlain
      obtain ⟨⟨hQuote, hBackslash⟩, hControl⟩ := hPlain
      simp [stringItems?, hBackslash, Nat.not_lt.mpr hControl]
  | short hShort =>
      obtain ⟨hMeant, hNotUnit⟩ := escaped?_of_mem hShort
      simp [stringItems?, hMeant, hNotUnit]
  | @unit a b c d w x y z ha hb hc hd =>
      have hNumber : hexNumber? [a, b, c, d] =
          some (0x1000 * w + 0x100 * x + 0x10 * y + z) := by
        simp [hexNumber?, hexValue?_of_isHexDigit ha, hexValue?_of_isHexDigit hb,
          hexValue?_of_isHexDigit hc, hexValue?_of_isHexDigit hd]
        omega
      simp [stringItems?, hNumber]

/-- The items of a string are read as they are written, up to the closing quote. -/
theorem stringItems?_of_spellsItems {items : List StringItem} (h : SpellsItems items s)
    (rest : Text) : stringItems? (s ++ '"' :: rest) = some (items, rest) := by
  induction h with
  | nil => simp [stringItems?]
  | cons hItem _ ih => rw [List.append_assoc, stringItems?_of_spellsItem hItem, ih, Option.map_some]

/-! ## What strings stand for -/

/-- A unit that is not half of a surrogate pair is a character. -/
theorem unitsOf_ofNat {n : Nat} (hLess : n < 0x10000) (hHigh : isHighHalf n = false)
    (hLow : isLowHalf n = false) : Text.unitsOf (Char.ofNat n) = [n] := by
  have hNat : (Char.ofNat n).toNat = n := by
    simp only [isHighHalf, isLowHalf, Bool.and_eq_false_iff, decide_eq_false_iff_not] at hHigh hLow
    exact Text.toNat_ofNat (by omega)
  rw [Text.unitsOf, hNat, if_pos hLess]

/-- The two halves of a surrogate pair are a character. -/
theorem unitsOf_pair {high low : Nat} (hHigh : isHighHalf high = true)
    (hLow : isLowHalf low = true) :
    Text.unitsOf (Char.ofNat (0x10000 + (high - 0xD800) * 0x400 + (low - 0xDC00))) =
      [high, low] := by
  simp only [isHighHalf, isLowHalf, Bool.and_eq_true, decide_eq_true_eq] at hHigh hLow
  have hNat : (Char.ofNat (0x10000 + (high - 0xD800) * 0x400 + (low - 0xDC00))).toNat =
      0x10000 + (high - 0xD800) * 0x400 + (low - 0xDC00) := Text.toNat_ofNat (by omega)
  rw [Text.unitsOf, hNat, if_neg (by omega)]
  simp only [List.cons.injEq, and_true]
  omega

/--
The units of a character do not begin with a second half, and when they begin with a first
half, a second one is all that follows.
-/
theorem halves_unitsOf {c : Char} {n : Nat} {u : List Nat} (h : Text.unitsOf c = n :: u) :
    isLowHalf n = false ∧ (isHighHalf n = true → ∃ low, u = [low] ∧ isLowHalf low = true) := by
  have hc := Text.toNat_range c
  simp only [isHighHalf, isLowHalf, Bool.and_eq_false_iff, Bool.and_eq_true, decide_eq_true_eq,
    decide_eq_false_iff_not]
  unfold Text.unitsOf at h
  split at h
  · obtain ⟨rfl, rfl⟩ := List.cons.inj h
    exact ⟨by omega, by omega⟩
  · obtain ⟨rfl, rfl⟩ := List.cons.inj h
    exact ⟨by omega, fun _ => ⟨_, rfl, by omega⟩⟩

theorem halves_units {n : Nat} {u : List Nat} {t : Text} (h : n :: u = Text.units t) :
    isLowHalf n = false ∧
      (isHighHalf n = true → ∃ low rest, u = low :: rest ∧ isLowHalf low = true) := by
  cases t with
  | nil => cases h
  | cons c t =>
      rw [Text.units_cons] at h
      cases hUnits : Text.unitsOf c with
      | nil => exact absurd hUnits (Text.unitsOf_ne_nil c)
      | cons m v =>
          rw [hUnits, List.cons_append] at h
          obtain ⟨rfl, rfl⟩ := List.cons.inj h
          obtain ⟨hLow, hHigh⟩ := halves_unitsOf hUnits
          refine ⟨hLow, fun hFirst => ?_⟩
          obtain ⟨low, rfl, hSecond⟩ := hHigh hFirst
          exact ⟨low, _, rfl, hSecond⟩

/-- The units of items that do not begin with a unit do not begin with a second half. -/
theorem isLowHalf_of_flatMap_units {items : List StringItem} {n : Nat} {u : List Nat}
    (hItems : ∀ low others, items = .unit low :: others → False)
    (h : items.flatMap StringItem.units = n :: u) : isLowHalf n = false := by
  cases items with
  | nil => cases h
  | cons item items =>
      cases item with
      | unit low => exact (hItems low items rfl).elim
      | char c =>
          rw [List.flatMap_cons, StringItem.units] at h
          cases hUnits : Text.unitsOf c with
          | nil => exact absurd hUnits (Text.unitsOf_ne_nil c)
          | cons m v =>
              rw [hUnits, List.cons_append] at h
              obtain ⟨rfl, _⟩ := List.cons.inj h
              exact (halves_unitsOf hUnits).1

/-- A character in front of items that stand for a text. -/
theorem map_textOfItems?_eq_some_iff {items : List StringItem} {c : Char} {t : Text}
    {u : List Nat} (hItems : ∀ t, textOfItems? items = some t ↔ u = Text.units t) :
    (textOfItems? items).map (c :: ·) = some t ↔ Text.unitsOf c ++ u = Text.units t := by
  rw [Text.unitsOf_append_eq_iff, Option.map_eq_some_iff]
  exact exists_congr fun rest => and_congr_left' (hItems rest)

/-- A unit that is not half of a pair, in front of items that stand for a text. -/
theorem map_ofNat_eq_some_iff {items : List StringItem} {n : Nat} {t : Text} {u : List Nat}
    (hLess : n < 0x10000) (hHigh : isHighHalf n = false) (hLow : isLowHalf n = false)
    (hItems : ∀ t, textOfItems? items = some t ↔ u = Text.units t) :
    (textOfItems? items).map (Char.ofNat n :: ·) = some t ↔ n :: u = Text.units t := by
  rw [map_textOfItems?_eq_some_iff hItems, unitsOf_ofNat hLess hHigh hLow]
  rfl

/-- Items stand for a text exactly when they have its units. -/
theorem textOfItems?_eq_some_iff {items : List StringItem}
    (hUnits : ∀ n, StringItem.unit n ∈ items → n < 0x10000) (t : Text) :
    textOfItems? items = some t ↔ items.flatMap StringItem.units = Text.units t := by
  fun_induction textOfItems? items generalizing t with
  | case1 =>
      cases t with
      | nil => simp
      | cons c t => simp [Text.unitsOf_ne_nil]
  | case2 c items ih =>
      exact map_textOfItems?_eq_some_iff (ih fun n hn => hUnits n (.tail _ hn))
  | case3 high low items hHigh hLow ih =>
      have hItems := ih fun n hn => hUnits n (.tail _ (.tail _ hn))
      rw [map_textOfItems?_eq_some_iff hItems, unitsOf_pair hHigh hLow]
      rfl
  | case4 high low items hHigh hLow =>
      refine iff_of_false nofun fun h => ?_
      obtain ⟨other, rest, hRest, hOther⟩ := (halves_units h).2 hHigh
      obtain ⟨rfl, _⟩ := List.cons.inj hRest
      exact hLow hOther
  | case5 high low items hHigh hLow =>
      exact iff_of_false nofun fun h => by simp [(halves_units h).1] at hLow
  | case6 high low items hHigh hLow ih =>
      rw [Bool.not_eq_true] at hHigh hLow
      exact map_ofNat_eq_some_iff (hUnits high (.head _)) hHigh hLow
        (ih fun n hn => hUnits n (.tail _ hn))
  | case7 n items hItems hHalf =>
      refine iff_of_false nofun fun h => ?_
      obtain ⟨hLow, hHigh⟩ := halves_units h
      rw [hLow, Bool.or_false] at hHalf
      obtain ⟨low, rest, hRest, hOther⟩ := hHigh hHalf
      rw [isLowHalf_of_flatMap_units hItems hRest] at hOther
      cases hOther
  | case8 n items hItems hHalf ih =>
      rw [Bool.not_eq_true, Bool.or_eq_false_iff] at hHalf
      exact map_ofNat_eq_some_iff (hUnits n (.head _)) hHalf.1 hHalf.2
        (ih fun n hn => hUnits n (.tail _ hn))

theorem lt_of_unit_mem {items : List StringItem} (h : SpellsItems items s) {n : Nat}
    (hMem : StringItem.unit n ∈ items) : n < 0x10000 := by
  induction h with
  | nil => cases hMem
  | cons hItem _ ih =>
      rcases List.mem_cons.mp hMem with rfl | hMem
      · cases hItem with
        | unit ha hb hc hd =>
            have hw := ha.1
            have hx := hb.1
            have hy := hc.1
            have hz := hd.1
            omega
      · exact ih hMem

theorem textOfItems?_of_standFor {items : List StringItem} {content : Option Text}
    (hItems : SpellsItems items s) (hContent : StandFor items content) :
    textOfItems? items = content := by
  have hText := textOfItems?_eq_some_iff fun n hn => lt_of_unit_mem hItems hn
  cases content with
  | some t => exact (hText t).mpr hContent
  | none =>
      rw [Option.eq_none_iff_forall_ne_some]
      exact fun t ht => hContent t ((hText t).mp ht)

/-! ## Reading tokens -/

/-- Whether a token is a value without parts. -/
def Token.isAtom : Token → Bool
  | atom _ => true
  | _ => false

theorem isGap_iff : isGap c = true ↔ c = ' ' ∨ c = '\t' ∨ c = '\n' ∨ c = '\r' := by
  simp [isGap, or_assoc]

/-- A sign or a digit begins a number. -/
theorem token?_number (hHead : c = '-' ∨ c.isDigit = true) (s : Text) :
    isGap c = false ∧ token? c s = numberOrWord? (c :: s) := by
  have hOther : ∀ d : Char, d ≠ '-' → d.isDigit = false → c ≠ d := by
    rintro d hMinus hDigit rfl
    rcases hHead with hHead | hHead
    · exact hMinus hHead
    · rw [hDigit] at hHead
      cases hHead
  refine ⟨?_, ?_⟩
  · rw [Bool.eq_false_iff, ne_eq, isGap_iff]
    simp [hOther]
  · simp [token?, hOther]

/--
A token is read as it is written. A number has to be followed by something that does not
continue it; other tokens can be followed by anything.
-/
theorem token?_of_spells (h : Spells token s)
    (hRest : token.isAtom = true → EndsNumber rest) :
    ∃ c t, s = c :: t ∧ isGap c = false ∧ token? c (t ++ rest) = some (token, rest) := by
  cases h with
  | openArray | closeArray | openObject | closeObject | comma | colon =>
      exact ⟨_, _, rfl, by decide, rfl⟩
  | null | yes | no => exact ⟨_, _, rfl, by decide, rfl⟩
  | number hNumber =>
      obtain ⟨c, t, rfl, hHead⟩ := exists_head_of_isNumber hNumber
      obtain ⟨hGap, hToken⟩ := token?_number hHead (t ++ rest)
      have hAfter := afterNumber?_append hNumber (hRest rfl)
      refine ⟨c, t, rfl, hGap, ?_⟩
      have hTake : (c :: t ++ rest).take ((c :: t ++ rest).length - rest.length) = c :: t := by
        rw [List.length_append, Nat.add_sub_cancel, List.take_left]
      rw [hToken, numberOrWord?, ← List.cons_append, hAfter]
      simp only [hTake]
  | @string items content s hItems hContent =>
      refine ⟨'"', _, rfl, by decide, ?_⟩
      have hRead := stringItems?_of_spellsItems hItems rest
      have hText := textOfItems?_of_standFor hItems hContent
      rw [List.append_assoc, List.singleton_append, token?, hRead, ← hText]
      rfl

theorem tokens?_gaps {gaps : Text} (hGaps : IsGaps gaps) (s : Text) :
    tokens? (gaps ++ s) = tokens? s := by
  induction gaps with
  | nil => rfl
  | cons c gaps ih =>
      have hGap : isGap c = true := isGap_iff.mpr (hGaps c (.head gaps))
      rw [List.cons_append, tokens?, if_pos hGap]
      exact ih fun d hd => hGaps d (.tail c hd)

theorem tokens?_token (hGap : isGap c = false) (hToken : token? c s = some (token, rest)) :
    tokens? (c :: s) = (tokens? rest).map (token :: ·) := by
  rw [tokens?, if_neg (by simp [hGap])]
  split
  · rename_i other tail hOther
    rw [hToken] at hOther
    cases hOther
    rfl
  · rename_i hNone
    rw [hToken] at hNone
    cases hNone

/-- Whether no two values without parts stand next to each other. -/
def AtomsApart (tokens : List Token) : Prop :=
  tokens.IsChain fun token next => token.isAtom = true → next.isAtom = false

/-- A gap does not continue a number, and neither does a token that is not an atom. -/
theorem endsNumber_of_spellsAll (h : SpellsAll tokens s)
    (hHead : ∀ token ∈ tokens.head?, token.isAtom = false) : EndsNumber s := by
  have hGap : ∀ {gaps : Text}, IsGaps gaps → EndsNumber gaps := by
    intro gaps hGaps c hc
    rcases hGaps c (List.mem_of_mem_head? hc) with rfl | rfl | rfl | rfl <;> decide
  cases h with
  | nil hGaps => exact hGap hGaps
  | @cons token tokens gaps s rest hGaps hToken _ =>
      cases gaps with
      | cons c gaps => exact fun d hd => hGap hGaps d hd
      | nil =>
          have hNoAtom := hHead token rfl
          cases hToken with
          | openArray | closeArray | openObject | closeObject | comma | colon =>
              rintro c ⟨⟩
              decide
          | null | yes | no | number | string => cases hNoAtom

/-- A text that spells tokens is cut into them. -/
theorem tokens?_of_spellsAll (h : SpellsAll tokens s) (hApart : AtomsApart tokens) :
    tokens? s = some tokens := by
  induction h with
  | @nil gaps hGaps => 
      have hEnd := tokens?_gaps hGaps []
      rw [List.append_nil] at hEnd
      rw [hEnd, tokens?]
  | @cons token tokens gaps s rest hGaps hToken hRest ih =>
      obtain ⟨hFirst, hApart⟩ := List.isChain_cons.mp hApart
      have hEnds : token.isAtom = true → EndsNumber rest := fun hAtom =>
        endsNumber_of_spellsAll hRest fun next hNext => hFirst next hNext hAtom
      obtain ⟨c, t, rfl, hGap, hRead⟩ := token?_of_spells hToken hEnds
      rw [tokens?_gaps hGaps, List.cons_append, tokens?_token hGap hRead, ih hApart,
        Option.map_some]

end Json

end ValueNames
