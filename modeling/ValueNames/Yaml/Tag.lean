import ValueNames.Json.Token
import ValueNames.Yaml.Character

/-!
# Names of tags

A tag is written with a handle, for which a directive may give a meaning, or
in full between angle brackets. It is made up of the characters of a URI;
escaped octets have to form whole characters.

## Main results

* `uri?_length_le`, `tagName?_length_le` — reading a tag goes forward in the
  text.
-/

namespace ValueNames.Yaml

/-! ## Names -/

/-- The letters, digits and dashes at the front, and the rest. -/
def nameAtFront (s : Source) : Text × Source :=
  (chars (s.takeWhile fun c => isNameChar c.char), s.dropWhile fun c => isNameChar c.char)

theorem nameAtFront_length_le (s : Source) : (nameAtFront s).2.length ≤ s.length :=
  (List.dropWhile_suffix _).length_le

/-! ## URIs -/

/-- Whether a character can stand in a tag; in full tags also some of the flow marks can. -/
def isUriChar (full : Bool) (c : Char) : Bool :=
  isNameChar c || ";/?:@&=+$.!~*'()".toList.contains c || (full && ",[]".toList.contains c)

/-- How many octets come after one that begins a character. -/
def octetsAfter? (octet : Nat) : Option Nat :=
  if octet < 0x80 then some 0
  else if octet < 0xC0 then none
  else if octet < 0xE0 then some 1
  else if octet < 0xF0 then some 2
  else if octet < 0xF8 then some 3
  else none

/-- How many octets of a character are to come after `octet`, if before it `pending` were. -/
def octetsPending? (pending octet : Nat) : Option Nat :=
  if pending = 0 then octetsAfter? octet
  else if 0x80 ≤ octet ∧ octet < 0xC0 then some (pending - 1)
  else none

/--
The part of a tag at the front, and the rest, where `pending` octets of a
character are to come. An escaped octet stands for the character of its number.
-/
def uri? (full : Bool) (pending : Nat) : Source → Option (Text × Source)
  | [] => if pending = 0 then some ([], []) else none
  | c :: s =>
      if c.char = '%' then
        match s with
        | high :: low :: tail =>
            (Json.hexNumber? [high.char, low.char]).bind fun octet =>
              (octetsPending? pending octet).bind fun pending =>
                (uri? full pending tail).map fun (taken, rest) => (Char.ofNat octet :: taken, rest)
        | _ => none
      else if 0 < pending then none
      else if isUriChar full c.char then
        (uri? full 0 s).map fun (taken, rest) => (c.char :: taken, rest)
      else some ([], c :: s)

theorem uri?_length_le {full : Bool} {pending : Nat} {s rest : Source} {taken : Text}
    (h : uri? full pending s = some (taken, rest)) : rest.length ≤ s.length := by
  fun_induction uri? full pending s generalizing taken rest with
  | case1 => cases h; exact Nat.le_refl _
  | case2 => cases h
  | case3 pending c hEscape high low tail ih =>
      obtain ⟨octet, _, h⟩ := Option.bind_eq_some_iff.mp h
      obtain ⟨pending', _, h⟩ := Option.bind_eq_some_iff.mp h
      obtain ⟨⟨taken', rest'⟩, hRest, hEq⟩ := Option.map_eq_some_iff.mp h
      cases hEq
      have hTail := ih pending' hRest
      simp only [List.length_cons]
      omega
  | case4 => cases h
  | case5 => cases h
  | case6 pending c s _ _ _ ih =>
      obtain ⟨⟨taken', rest'⟩, hRest, hEq⟩ := Option.map_eq_some_iff.mp h
      cases hEq
      exact Nat.le_succ_of_le (ih hRest)
  | case7 => cases h; exact Nat.le_refl _

/-! ## Tags -/

/-- The name of a tag: a handle, which is empty for a tag in full, and what follows it. -/
structure TagName where
  handle : Text
  suffix : Text
deriving DecidableEq, Repr

/-- The handle at the front of what follows an exclamation mark, if there is one, and the rest. -/
def handle? (s : Source) : Option (Text × Source) :=
  match nameAtFront s with
  | (name, c :: rest) => if c.char = '!' then some ('!' :: (name ++ ['!']), rest) else none
  | _ => none

/-- The part of a tag at the front, which is not empty, and the rest. -/
def nonEmptyUri? (full : Bool) (s : Source) : Option (Text × Source) :=
  (uri? full 0 s).bind fun (taken, rest) => if taken.isEmpty then none else some (taken, rest)

/-- The tag in full after `!<`, and the rest. -/
def fullTag? (s : Source) : Option (TagName × Source) :=
  (nonEmptyUri? true s).bind fun (suffix, rest) =>
    match rest with
    | c :: rest => if c.char = '>' then some (⟨[], suffix⟩, rest) else none
    | [] => none

/-- The tag after an exclamation mark, and the rest. An exclamation mark alone is a tag, too. -/
def shortTag? (s : Source) : Option (TagName × Source) :=
  match handle? s with
  | some (handle, tail) =>
      (nonEmptyUri? false tail).map fun (suffix, rest) => (⟨handle, suffix⟩, rest)
  | none =>
      (uri? false 0 s).map fun (suffix, rest) =>
        (if suffix.isEmpty then ⟨[], ['!']⟩ else ⟨['!'], suffix⟩, rest)

/-- The name of the tag after an exclamation mark, after which there is a gap, and the rest. -/
def tagName? (flow : Bool) (s : Source) : Option (TagName × Source) :=
  let found := if begins (· = '<') s then fullTag? (s.drop 1) else shortTag? s
  found.bind fun (name, rest) =>
    if atGap rest || (flow && begins (· = ',') rest) then some (name, rest) else none

theorem handle?_length_le {s rest : Source} {handle : Text} (h : handle? s = some (handle, rest)) :
    rest.length ≤ s.length := by
  have hName := nameAtFront_length_le s
  unfold handle? at h
  split at h
  · rename_i name c tail hEq
    rw [hEq, List.length_cons] at hName
    split at h
    · cases h
      omega
    · cases h
  · cases h

theorem nonEmptyUri?_length_le {full : Bool} {s rest : Source} {taken : Text}
    (h : nonEmptyUri? full s = some (taken, rest)) : rest.length ≤ s.length := by
  obtain ⟨⟨taken', rest'⟩, hUri, h⟩ := Option.bind_eq_some_iff.mp h
  dsimp only at h
  split at h
  · cases h
  · cases h
    exact uri?_length_le hUri

theorem fullTag?_length_le {s rest : Source} {name : TagName}
    (h : fullTag? s = some (name, rest)) : rest.length ≤ s.length := by
  obtain ⟨⟨suffix, rest'⟩, hUri, h⟩ := Option.bind_eq_some_iff.mp h
  have hRest := nonEmptyUri?_length_le hUri
  dsimp only at h
  split at h
  · rw [List.length_cons] at hRest
    split at h
    · cases h
      omega
    · cases h
  · cases h

theorem shortTag?_length_le {s rest : Source} {name : TagName}
    (h : shortTag? s = some (name, rest)) : rest.length ≤ s.length := by
  unfold shortTag? at h
  split at h
  · rename_i hHandle
    obtain ⟨⟨suffix, rest'⟩, hUri, hEq⟩ := Option.map_eq_some_iff.mp h
    cases hEq
    exact Nat.le_trans (nonEmptyUri?_length_le hUri) (handle?_length_le hHandle)
  · obtain ⟨⟨suffix, rest'⟩, hUri, hEq⟩ := Option.map_eq_some_iff.mp h
    cases hEq
    exact uri?_length_le hUri

theorem tagName?_length_le {flow : Bool} {s rest : Source} {name : TagName}
    (h : tagName? flow s = some (name, rest)) : rest.length ≤ s.length := by
  obtain ⟨⟨name', rest'⟩, hFound, h⟩ := Option.bind_eq_some_iff.mp h
  have hRest : rest'.length ≤ s.length := by
    split at hFound
    · have hTail := fullTag?_length_le hFound
      rw [List.length_drop] at hTail
      omega
    · exact shortTag?_length_le hFound
  dsimp only at h
  split at h
  · cases h
    exact hRest
  · cases h

end ValueNames.Yaml
