import ValueNames.Json.Token
import ValueNames.Yaml.Scalar.Basic

/-!
# Quoted scalars

A scalar in single quotes has one escape, the doubled quote. A scalar in
double quotes has the escapes with a backslash, one of which joins two lines
without a space. In both, the breaks between lines are folded, and no document
marker may begin a line.

## Main results

* `singleQuoted?_length_le`, `doubleQuoted?_length_le` — reading a quoted
  scalar goes forward in the text.
-/

namespace ValueNames.Yaml

/-! ## Gaps -/

/-- The breaks up to the next content, where no document marker may begin. -/
def quotedBreaks? (s : Source) : Option (Text × Source) :=
  (skipBreaks? 0 s).bind fun (breaks, rest) =>
    if atMarker rest then none else some (breaks, rest)

/-- What the gap at the front of `c :: s` counts as, and the rest. -/
def quotedGap? (c : Placed) (s : Source) : Option (Text × Source) :=
  if isBreak c.char then
    (quotedBreaks? s).map fun (breaks, rest) => (folded (c.char :: breaks), rest)
  else if begins isBreak (skipWhite s) then some ([], s)
  else some ([c.char], s)

theorem quotedBreaks?_length_le {s rest : Source} {breaks : Text}
    (h : quotedBreaks? s = some (breaks, rest)) : rest.length ≤ s.length := by
  obtain ⟨⟨breaks', rest'⟩, hBreaks, hMarker⟩ := Option.bind_eq_some_iff.mp h
  dsimp only at hMarker
  split at hMarker
  · cases hMarker
  · cases hMarker
    exact skipBreaks?_length_le hBreaks

theorem quotedGap?_length_le {c : Placed} {s rest : Source} {text : Text}
    (h : quotedGap? c s = some (text, rest)) : rest.length ≤ s.length := by
  unfold quotedGap? at h
  split at h
  · obtain ⟨⟨breaks, rest'⟩, hBreaks, hEq⟩ := Option.map_eq_some_iff.mp h
    cases hEq
    exact quotedBreaks?_length_le hBreaks
  · split at h <;> cases h <;> exact Nat.le_refl _

/-! ## Single quotes -/

/-- The text of a scalar in single quotes up to the closing one, and the rest. -/
def singleQuoted? : Source → Option (Text × Source)
  | [] => none
  | c :: s =>
      if c.char = '\'' then
        match s with
        | d :: tail =>
            if d.char = '\'' then
              (singleQuoted? tail).map fun (taken, rest) => ('\'' :: taken, rest)
            else some ([], d :: tail)
        | [] => some ([], [])
      else if isWhite c.char || isBreak c.char then
        match hGap : quotedGap? c s with
        | none => none
        | some (gap, next) =>
            have := quotedGap?_length_le hGap
            (singleQuoted? next).map fun (taken, rest) => (gap ++ taken, rest)
      else (singleQuoted? s).map fun (taken, rest) => (c.char :: taken, rest)
termination_by s => s.length
decreasing_by
  all_goals simp only [List.length_cons]
  all_goals omega

/-! ## Escapes -/

/-- The character that a backslash and another character stand for. -/
def escaped? : Char → Option Char
  | '0' => some '\x00'
  | 'a' => some '\x07'
  | 'b' => some '\x08'
  | 't' => some '\t'
  | '\t' => some '\t'
  | 'n' => some '\n'
  | 'v' => some '\x0b'
  | 'f' => some '\x0c'
  | 'r' => some '\r'
  | 'e' => some '\x1b'
  | ' ' => some ' '
  | '"' => some '"'
  | '/' => some '/'
  | '\\' => some '\\'
  | 'N' => some '\u0085'
  | '_' => some '\u00a0'
  | 'L' => some '\u2028'
  | 'P' => some '\u2029'
  | _ => none

/-- The number of hexadecimal digits after `\x`, `\u` and `\U`. -/
def codeLength? : Char → Option Nat
  | 'x' => some 2
  | 'u' => some 4
  | 'U' => some 8
  | _ => none

/-- The character of a code point that hexadecimal digits write. -/
def charOfDigits? (digits : Text) : Option Char :=
  (Json.hexNumber? digits).bind fun n =>
    if n.isValidChar then some (Char.ofNat n) else none

/-- What is meant by a backslash before `c :: s`, and the rest. -/
def escape? (c : Placed) (s : Source) : Option (Text × Source) :=
  if isBreak c.char then quotedBreaks? s
  else
    match codeLength? c.char with
    | some n =>
        if (s.take n).length = n then
          (charOfDigits? (chars (s.take n))).map fun meant => ([meant], s.drop n)
        else none
    | none => (escaped? c.char).map fun meant => ([meant], s)

theorem escape?_length_le {c : Placed} {s rest : Source} {meant : Text}
    (h : escape? c s = some (meant, rest)) : rest.length ≤ s.length := by
  unfold escape? at h
  split at h
  · exact quotedBreaks?_length_le h
  · split at h
    · split at h
      · obtain ⟨meant', _, hEq⟩ := Option.map_eq_some_iff.mp h
        cases hEq
        simp only [List.length_drop]
        omega
      · cases h
    · obtain ⟨meant', _, hEq⟩ := Option.map_eq_some_iff.mp h
      cases hEq
      exact Nat.le_refl _

/-! ## Double quotes -/

/-- The text of a scalar in double quotes up to the closing one, and the rest. -/
def doubleQuoted? : Source → Option (Text × Source)
  | [] => none
  | c :: s =>
      if c.char = '"' then some ([], s)
      else if c.char = '\\' then
        match s with
        | [] => none
        | d :: tail =>
            match hEscape : escape? d tail with
            | none => none
            | some (meant, next) =>
                have := escape?_length_le hEscape
                (doubleQuoted? next).map fun (taken, rest) => (meant ++ taken, rest)
      else if isWhite c.char || isBreak c.char then
        match hGap : quotedGap? c s with
        | none => none
        | some (gap, next) =>
            have := quotedGap?_length_le hGap
            (doubleQuoted? next).map fun (taken, rest) => (gap ++ taken, rest)
      else (doubleQuoted? s).map fun (taken, rest) => (c.char :: taken, rest)
termination_by s => s.length
decreasing_by
  all_goals simp only [List.length_cons]
  all_goals omega

theorem singleQuoted?_length_le {s rest : Source} {taken : Text}
    (h : singleQuoted? s = some (taken, rest)) : rest.length ≤ s.length := by
  fun_induction singleQuoted? s generalizing taken rest with
  | case1 => cases h
  | case2 c hc d tail hd ih =>
      obtain ⟨⟨taken', rest'⟩, hRest, hEq⟩ := Option.map_eq_some_iff.mp h
      cases hEq
      have hTail := ih hRest
      simp only [List.length_cons]
      omega
  | case3 => cases h; simp
  | case4 => cases h; simp
  | case5 => cases h
  | case6 c s hc hWhite gap next hGap hLess ih =>
      obtain ⟨⟨taken', rest'⟩, hRest, hEq⟩ := Option.map_eq_some_iff.mp h
      cases hEq
      have hNext := ih hRest
      simp only [List.length_cons]
      omega
  | case7 c s hc hWhite ih =>
      obtain ⟨⟨taken', rest'⟩, hRest, hEq⟩ := Option.map_eq_some_iff.mp h
      cases hEq
      exact Nat.le_succ_of_le (ih hRest)

theorem doubleQuoted?_length_le {s rest : Source} {taken : Text}
    (h : doubleQuoted? s = some (taken, rest)) : rest.length ≤ s.length := by
  fun_induction doubleQuoted? s generalizing taken rest with
  | case1 => cases h
  | case2 => cases h; simp
  | case3 => cases h
  | case4 => cases h
  | case5 c hQuote hBackslash d tail meant next hEscape hLess ih =>
      obtain ⟨⟨taken', rest'⟩, hRest, hEq⟩ := Option.map_eq_some_iff.mp h
      cases hEq
      have hNext := ih hRest
      simp only [List.length_cons]
      omega
  | case6 => cases h
  | case7 c s hQuote hBackslash hWhite gap next hGap hLess ih =>
      obtain ⟨⟨taken', rest'⟩, hRest, hEq⟩ := Option.map_eq_some_iff.mp h
      cases hEq
      have hNext := ih hRest
      simp only [List.length_cons]
      omega
  | case8 c s hQuote hBackslash hWhite ih =>
      obtain ⟨⟨taken', rest'⟩, hRest, hEq⟩ := Option.map_eq_some_iff.mp h
      cases hEq
      exact Nat.le_succ_of_le (ih hRest)

end ValueNames.Yaml
