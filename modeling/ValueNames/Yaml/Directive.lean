import ValueNames.Yaml.Scalar.Block
import ValueNames.Yaml.Tag

/-!
# YAML directives

Before a document there may be directives, one on a line: the version of the
format, and what the handles of tags stand for.

## Main results

* `directive?_length_le` — reading a directive goes forward in the text.
-/

namespace ValueNames.Yaml

/-- The directives. -/
inductive Directive
  /-- The version of the format. -/
  | version (major minor : Nat)
  /-- What a handle stands for at the front of tags. -/
  | handle (name meaning : Text)
deriving DecidableEq, Repr

/-- A number of at most nine digits at the front, and the rest. -/
def versionNumber? (s : Source) : Option (Nat × Source) :=
  let digits := s.takeWhile fun c => c.char.isDigit
  if digits.isEmpty ∨ 9 < digits.length then none
  else
    (digits.mapM fun c => digit? c.char).map fun values =>
      (values.foldl (10 * · + ·) 0, s.dropWhile fun c => c.char.isDigit)

/-- A version at the front, and the rest. -/
def version? (s : Source) : Option (Directive × Source) :=
  (versionNumber? s).bind fun (major, rest) =>
    if begins (· = '.') rest then
      (versionNumber? (rest.drop 1)).map fun (minor, rest) => (.version major minor, rest)
    else none

/-- A handle at the front of what follows an exclamation mark, which can be the whole of it. -/
def handleName? (s : Source) : Option (Text × Source) :=
  (handle? s).or (if begins isWhite s then some (['!'], s) else none)

/-- A handle and its meaning at the front, with white space between them, and the rest. -/
def handleMeaning? (s : Source) : Option (Directive × Source) :=
  if begins (· = '!') s then
    (handleName? (s.drop 1)).bind fun (name, rest) =>
      if begins isWhite rest then
        (nonEmptyUri? true (skipWhite rest)).bind fun (meaning, rest) =>
          if atGap rest then some (.handle name meaning, rest) else none
      else none
  else none

/-- The directive after a percent sign, and what follows its line. -/
def directive? (s : Source) : Option (Directive × Source) :=
  let (name, rest) := nameAtFront s
  let found :=
    if !atGap rest then none
    else if name = "YAML".toList then version? (skipWhite rest)
    else if name = "TAG".toList then handleMeaning? (skipWhite rest)
    else none
  found.bind fun (directive, rest) => (endLine? rest).map fun rest => (directive, rest)

theorem versionNumber?_length_le {s rest : Source} {n : Nat}
    (h : versionNumber? s = some (n, rest)) : rest.length ≤ s.length := by
  unfold versionNumber? at h
  dsimp only at h
  split at h
  · cases h
  · obtain ⟨values, _, hEq⟩ := Option.map_eq_some_iff.mp h
    cases hEq
    exact (List.dropWhile_suffix _).length_le

theorem version?_length_le {s rest : Source} {directive : Directive}
    (h : version? s = some (directive, rest)) : rest.length ≤ s.length := by
  obtain ⟨⟨major, rest'⟩, hMajor, h⟩ := Option.bind_eq_some_iff.mp h
  have hRest := versionNumber?_length_le hMajor
  dsimp only at h
  split at h
  · obtain ⟨⟨minor, rest''⟩, hMinor, hEq⟩ := Option.map_eq_some_iff.mp h
    cases hEq
    have hTail := versionNumber?_length_le hMinor
    rw [List.length_drop] at hTail
    exact Nat.le_trans hTail (Nat.le_trans (Nat.sub_le _ _) hRest)
  · cases h

theorem handleName?_length_le {s rest : Source} {name : Text}
    (h : handleName? s = some (name, rest)) : rest.length ≤ s.length := by
  rcases Option.or_eq_some_iff.mp h with h | ⟨_, h⟩
  · exact handle?_length_le h
  · split at h
    · cases h
      exact Nat.le_refl _
    · cases h

theorem handleMeaning?_length_le {s rest : Source} {directive : Directive}
    (h : handleMeaning? s = some (directive, rest)) : rest.length ≤ s.length := by
  unfold handleMeaning? at h
  split at h
  · obtain ⟨⟨name, rest'⟩, hName, h⟩ := Option.bind_eq_some_iff.mp h
    have hRest := handleName?_length_le hName
    dsimp only at h
    split at h
    · obtain ⟨⟨meaning, rest''⟩, hMeaning, h⟩ := Option.bind_eq_some_iff.mp h
      have hTail := nonEmptyUri?_length_le hMeaning
      have hWhite := length_skipWhite_le rest'
      dsimp only at h
      split at h
      · cases h
        rw [List.length_drop] at hRest
        omega
      · cases h
    · cases h
  · cases h

theorem directive?_length_le {s rest : Source} {directive : Directive}
    (h : directive? s = some (directive, rest)) : rest.length ≤ s.length := by
  have hName := nameAtFront_length_le s
  have hWhite := length_skipWhite_le (nameAtFront s).2
  obtain ⟨⟨directive', rest'⟩, hFound, h⟩ := Option.bind_eq_some_iff.mp h
  obtain ⟨rest'', hLine, hEq⟩ := Option.map_eq_some_iff.mp h
  cases hEq
  have hEnd := endLine?_length_le hLine
  have hRest : rest'.length ≤ (skipWhite (nameAtFront s).2).length := by
    split at hFound
    · cases hFound
    · split at hFound
      · exact version?_length_le hFound
      · split at hFound
        · exact handleMeaning?_length_le hFound
        · cases hFound
  omega

end ValueNames.Yaml
