import ValueNames.Text.Search

/-!
# Patterns and their ways to match

A pattern is matched by trying its choices in order of preference: the first branch of
an alternation before the second, one more round of a repetition before none. All ways
to match are listed in that order, so that a choice which fails further on falls back to
the next one in the list. The match is the way in front.

A proof about a match asks for the first way that some `accept` takes. In that form each
constructor has an equation that hands the rest of the pattern to `accept`, and the rules
for a repeated character say which of its ways is the one taken.

## Main results

* `first?_seq`, `first?_many` — the first way of a pattern by its parts.
* `first?_many_char`, `first?_many_char_of_head` — a repeated character takes all it can if
  what follows accepts that, or accepts nothing less.
* `first?_many_char_eq` — it takes the one text that what follows accepts.
* `taken_append_rest_of_mem_ways` — what a way takes and what it leaves make up the text.
* `recogniser` — a pattern reads off what its match takes.
-/

namespace ValueNames

/-- Patterns over single characters and the ends of lines. -/
inductive Pattern
  | empty
  | char (allowed : Char → Bool)
  /-- Nothing, at the start of the text or behind a line feed. -/
  | lineStart
  /-- Nothing, at the end of the text or before a line feed. -/
  | lineEnd
  | seq (first second : Pattern)
  | either (preferred other : Pattern)
  /-- Any number of rounds, preferably more; each has to take something. -/
  | many (body : Pattern)
  /-- What the body takes is kept under a name. -/
  | group (name : Text) (body : Pattern)

/-- One way to match a pattern: the text taken, the named groups, and what is left. -/
structure Way where
  taken : Text
  groups : List (Text × Text)
  rest : Text
deriving DecidableEq, Repr

namespace Way

/-- The way that takes nothing. -/
def stay (s : Text) : Way := ⟨[], [], s⟩

/-- One way and then another from where the first one ended. -/
def append (way next : Way) : Way :=
  ⟨way.taken ++ next.taken, way.groups ++ next.groups, next.rest⟩

/-- Keeps what was taken under a name. -/
def named (name : Text) (way : Way) : Way := { way with groups := (name, way.taken) :: way.groups }

/-- The character before what is left. -/
def last? (way : Way) (before : Option Char) : Option Char := way.taken.getLast?.or before

@[simp] theorem rest_stay (s : Text) : (stay s).rest = s := rfl

theorem stay_append (s : Text) (way : Way) : (stay s).append way = way := rfl

theorem append_assoc (a b c : Way) : (a.append b).append c = a.append (b.append c) := by
  simp [append]

theorem last?_append (way next : Way) (before : Option Char) :
    (way.append next).last? before = next.last? (way.last? before) := by
  rw [last?, append, List.getLast?_append, Option.or_assoc]
  rfl

end Way

namespace Pattern

/-! ## All ways -/

/-- The ways of a repetition: those with a first round, then the one with no round. -/
def repeated (round : Option Char → Text → List Way) (before : Option Char) (s : Text) :
    List Way :=
  ((round before s).flatMap fun way =>
    if way.rest.length < s.length then
      (repeated round (way.last? before) way.rest).map way.append
    else []) ++ [.stay s]
termination_by s.length

/-- All ways to match a pattern at the front of a text, in order of preference. -/
def ways : Pattern → Option Char → Text → List Way
  | empty, _, s => [.stay s]
  | char _, _, [] => []
  | char allowed, _, c :: s => if allowed c then [⟨[c], [], s⟩] else []
  | lineStart, before, s => if before = none ∨ before = some '\n' then [.stay s] else []
  | lineEnd, _, s => if s.head? = none ∨ s.head? = some '\n' then [.stay s] else []
  | seq first second, before, s =>
      (first.ways before s).flatMap fun way =>
        (second.ways (way.last? before) way.rest).map way.append
  | either preferred other, before, s => preferred.ways before s ++ other.ways before s
  | many body, before, s => repeated body.ways before s
  | group name body, before, s => (body.ways before s).map (Way.named name)

/-- A text, character by character. -/
def word (s : Text) : Pattern := s.foldr (fun c rest => seq (char (· = c)) rest) empty

/-- Preferably what the body takes, else nothing. -/
def atMostOnce (body : Pattern) : Pattern := either body empty

variable {α : Type} {before : Option Char} {s rest : Text} {way : Way} {accept : Way → Option α}

/-! ## Members of the list -/

theorem ways_char_cons (allowed : Char → Bool) (c : Char) (s : Text) :
    (char allowed).ways before (c :: s) = if allowed c then [⟨[c], [], s⟩] else [] := rfl

theorem ways_seq (first second : Pattern) :
    (seq first second).ways before s = (first.ways before s).flatMap fun way =>
      (second.ways (way.last? before) way.rest).map way.append := rfl

theorem ways_either (preferred other : Pattern) :
    (either preferred other).ways before s = preferred.ways before s ++ other.ways before s := rfl

theorem ways_group (name : Text) (body : Pattern) :
    (group name body).ways before s = (body.ways before s).map (Way.named name) := rfl

/-- The one way that there is under a condition. -/
theorem mem_ite_iff {p : Prop} [Decidable p] {only : Way} :
    way ∈ (if p then [only] else []) ↔ p ∧ way = only := by
  by_cases hp : p
  · rw [if_pos hp, List.mem_singleton, and_iff_right hp]
  · rw [if_neg hp]
    exact iff_of_false List.not_mem_nil fun h => hp h.1

theorem mem_ways_seq {first second : Pattern} :
    way ∈ (seq first second).ways before s ↔
      ∃ start ∈ first.ways before s, ∃ next ∈ second.ways (start.last? before) start.rest,
        way = start.append next := by
  simp [ways_seq, eq_comm]

/-- What holds of no round, and with each further round, holds of all ways of a repetition. -/
theorem forall_mem_repeated {round : Option Char → Text → List Way} {motive : Text → Way → Prop}
    (hStay : ∀ s, motive s (.stay s))
    (hRound : ∀ before s, ∀ start ∈ round before s, ∀ next, motive start.rest next →
      motive s (start.append next)) :
    ∀ way ∈ repeated round before s, motive s way := by
  fun_induction repeated round before s with
  | case1 before s ih =>
      intro way hWay
      rcases List.mem_append.mp hWay with hMore | hNone
      · obtain ⟨start, hStart, hMore⟩ := List.mem_flatMap.mp hMore
        split at hMore
        · rename_i hShorter
          obtain ⟨next, hNext, rfl⟩ := List.mem_map.mp hMore
          exact hRound before s start hStart next (ih start hShorter next hNext)
        · cases hMore
      · obtain rfl := List.mem_singleton.mp hNone
        exact hStay s

/-- What a way takes and what it leaves make up the text. -/
theorem taken_append_rest_of_mem_ways {pattern : Pattern} (h : way ∈ pattern.ways before s) :
    way.taken ++ way.rest = s := by
  induction pattern generalizing before s way with
  | empty =>
      obtain rfl := List.mem_singleton.mp h
      rfl
  | char allowed =>
      cases s with
      | nil => cases h
      | cons c s =>
          obtain ⟨_, rfl⟩ := mem_ite_iff.mp h
          rfl
  | lineStart | lineEnd =>
      obtain ⟨_, rfl⟩ := mem_ite_iff.mp h
      rfl
  | seq first second ihFirst ihSecond =>
      obtain ⟨start, hStart, next, hNext, rfl⟩ := mem_ways_seq.mp h
      rw [Way.append, List.append_assoc, ihSecond hNext, ihFirst hStart]
  | either preferred other ihPreferred ihOther =>
      rcases List.mem_append.mp h with hWay | hWay
      · exact ihPreferred hWay
      · exact ihOther hWay
  | many body ih =>
      refine forall_mem_repeated (motive := fun s way => way.taken ++ way.rest = s) (fun s => rfl)
        ?_ way h
      intro before s start hStart next hNext
      rw [Way.append, List.append_assoc, hNext, ih hStart]
  | group name body ih =>
      obtain ⟨inner, hInner, rfl⟩ := List.mem_map.mp h
      have hSplit := ih hInner
      exact hSplit

theorem mem_ways_char {allowed : Char → Bool} :
    way ∈ (char allowed).ways before s ↔ ∃ c, allowed c = true ∧ s = c :: way.rest ∧
      way = ⟨[c], [], way.rest⟩ := by
  cases s with
  | nil => exact ⟨fun h => absurd h List.not_mem_nil, by simp⟩
  | cons c s =>
      rw [ways_char_cons, mem_ite_iff]
      constructor
      · rintro ⟨hc, rfl⟩
        exact ⟨c, hc, rfl, rfl⟩
      · rintro ⟨d, hd, hSplit, hWay⟩
        obtain ⟨rfl, rfl⟩ := List.cons.inj hSplit
        exact ⟨hd, hWay⟩

/-- A word is matched in one way, where the text begins with it. -/
theorem ways_word (lead : Text) :
    (word lead).ways before s = (Text.stripLead? lead s).toList.map fun rest => ⟨lead, [], rest⟩ := by
  induction lead generalizing before s with
  | nil => rfl
  | cons a lead ih =>
      cases s with
      | nil => rfl
      | cons c s =>
          have hWord : word (a :: lead) = seq (char (· = a)) (word lead) := rfl
          rw [hWord, ways_seq, ways_char_cons, Text.stripLead?]
          by_cases hc : a = c
          · rw [if_pos hc, if_pos (by simp [hc]), List.flatMap_singleton, ih]
            simp [Way.append, hc, Function.comp_def]
          · have hNe : ¬ decide (c = a) = true := by simpa [eq_comm] using hc
            rw [if_neg hc, if_neg hNe]
            rfl

theorem eq_of_mem_ways_word {lead : Text} (h : way ∈ (word lead).ways before s) :
    way = ⟨lead, [], way.rest⟩ := by
  rw [ways_word] at h
  obtain ⟨rest, _, rfl⟩ := List.mem_map.mp h
  rfl

/-- A repeated character takes any number of characters of its kind. -/
theorem mem_ways_many_char {allowed : Char → Bool} (h : way ∈ (many (char allowed)).ways before s) :
    (∀ c ∈ way.taken, allowed c = true) ∧ way.groups = [] := by
  refine forall_mem_repeated (motive := fun _ way =>
    (∀ c ∈ way.taken, allowed c = true) ∧ way.groups = []) ?_ ?_ way h
  · intro s
    exact ⟨fun c hc => absurd hc List.not_mem_nil, rfl⟩
  · rintro before s start hStart next ⟨hTaken, hGroups⟩
    obtain ⟨c, hc, _, hWay⟩ := mem_ways_char.mp hStart
    rw [hWay]
    exact ⟨List.forall_mem_cons.mpr ⟨hc, hTaken⟩, hGroups⟩

/-! ## The first way that is accepted -/

/-- The first way to match a pattern that is accepted. -/
def first? (pattern : Pattern) (before : Option Char) (s : Text) (accept : Way → Option α) :
    Option α :=
  (pattern.ways before s).findSome? accept

theorem findSome?_flatMap {β γ : Type} (l : List β) (f : β → List γ) (accept : γ → Option α) :
    (l.flatMap f).findSome? accept = l.findSome? fun b => (f b).findSome? accept := by
  induction l with
  | nil => rfl
  | cons b l ih =>
      rw [List.flatMap_cons, List.findSome?_append, ih, List.findSome?_cons]
      cases (f b).findSome? accept <;> rfl

/-- A single way is accepted or not, where there is one. -/
theorem findSome?_ite {p : Prop} [Decidable p] (way : Way) :
    (if p then [way] else []).findSome? accept = if p then accept way else none := by
  split
  · exact List.findSome?_singleton
  · rfl

theorem first?_char_cons (allowed : Char → Bool) (c : Char) (s : Text) :
    (char allowed).first? before (c :: s) accept =
      if allowed c then accept ⟨[c], [], s⟩ else none :=
  findSome?_ite ⟨[c], [], s⟩

theorem first?_lineStart :
    lineStart.first? before s accept =
      if before = none ∨ before = some '\n' then accept (.stay s) else none :=
  findSome?_ite (.stay s)

theorem first?_lineEnd :
    lineEnd.first? before s accept =
      if s.head? = none ∨ s.head? = some '\n' then accept (.stay s) else none :=
  findSome?_ite (.stay s)

theorem first?_seq (first second : Pattern) :
    (seq first second).first? before s accept =
      first.first? before s fun way =>
        second.first? (way.last? before) way.rest fun next => accept (way.append next) := by
  simp only [first?, ways_seq, findSome?_flatMap, List.findSome?_map, Function.comp_def]

theorem first?_many (body : Pattern) :
    (many body).first? before s accept =
      (body.first? before s fun way =>
        if way.rest.length < s.length then
          (many body).first? (way.last? before) way.rest fun next => accept (way.append next)
        else none).or (accept (.stay s)) := by
  show (repeated body.ways before s).findSome? accept = _
  rw [repeated, List.findSome?_append, findSome?_flatMap, List.findSome?_singleton]
  congr 2
  funext way
  split
  · rw [List.findSome?_map]
    rfl
  · rfl

/-- A repetition and what follows it: one more round, or what follows. -/
theorem first?_seq_many (body next : Pattern) :
    (seq (many body) next).first? before s accept =
      (body.first? before s fun way =>
        if way.rest.length < s.length then
          (seq (many body) next).first? (way.last? before) way.rest fun tail =>
            accept (way.append tail)
        else none).or (next.first? before s accept) := by
  simp only [first?_seq]
  rw [first?_many]
  simp only [Way.last?_append, Way.append_assoc, Way.stay_append]
  rfl

theorem first?_group (name : Text) (body : Pattern) :
    (group name body).first? before s accept =
      body.first? before s fun way => accept (way.named name) := by
  rw [first?, ways_group, List.findSome?_map]
  rfl

/-- Where no way is accepted, there is no first one. -/
theorem first?_eq_none {pattern : Pattern} (h : ∀ way ∈ pattern.ways before s, accept way = none) :
    pattern.first? before s accept = none :=
  List.findSome?_eq_none_iff.mpr h

/-! ## Repeated characters -/

section ManyChar

variable {allowed : Char → Bool}

/-- One more round of a repeated character, or none. -/
theorem first?_many_char_cons (c : Char) (s : Text) :
    (many (char allowed)).first? before (c :: s) accept =
      (if allowed c then
        (many (char allowed)).first? (some c) s fun next => accept (Way.append ⟨[c], [], s⟩ next)
      else none).or (accept (.stay (c :: s))) := by
  rw [first?_many, first?_char_cons]
  simp [Way.last?]

theorem first?_many_char_nil :
    (many (char allowed)).first? before [] accept = accept (.stay []) := by
  rw [first?_many]
  rfl

/-- A repeated character takes all it can if what follows accepts that. -/
theorem first?_many_char
    (h : (accept ⟨s.takeWhile allowed, [], s.dropWhile allowed⟩).isSome = true) :
    (many (char allowed)).first? before s accept =
      accept ⟨s.takeWhile allowed, [], s.dropWhile allowed⟩ := by
  induction s generalizing before accept with
  | nil => exact first?_many_char_nil
  | cons c s ih =>
      rw [first?_many_char_cons]
      by_cases hc : allowed c = true
      · rw [List.takeWhile_cons_of_pos hc, List.dropWhile_cons_of_pos hc] at h ⊢
        obtain ⟨found, hFound⟩ := Option.isSome_iff_exists.mp h
        rw [if_pos hc, ih h]
        exact (congrArg (Option.or · _) hFound).trans hFound.symm
      · rw [List.takeWhile_cons_of_neg hc, List.dropWhile_cons_of_neg hc, if_neg hc]
        rfl

/-- It also does where what follows accepts no text that begins with such a character. -/
theorem first?_many_char_of_head
    (h : ∀ own c behind, allowed c = true → accept ⟨own, [], c :: behind⟩ = none) :
    (many (char allowed)).first? before s accept =
      accept ⟨s.takeWhile allowed, [], s.dropWhile allowed⟩ := by
  induction s generalizing before accept with
  | nil => exact first?_many_char_nil
  | cons c s ih =>
      rw [first?_many_char_cons]
      by_cases hc : allowed c = true
      · have hStay : accept (.stay (c :: s)) = none := h [] c s hc
        have hRest : ∀ own d behind, allowed d = true →
            accept (Way.append ⟨[c], [], s⟩ ⟨own, [], d :: behind⟩) = none :=
          fun own d behind hd => h (c :: own) d behind hd
        rw [if_pos hc, hStay, Option.or_none, ih hRest, List.takeWhile_cons_of_pos hc,
          List.dropWhile_cons_of_pos hc]
        rfl
      · rw [List.takeWhile_cons_of_neg hc, List.dropWhile_cons_of_neg hc, if_neg hc]
        rfl

/-- A repeated character takes the one text that what follows accepts. -/
theorem first?_many_char_eq {taken : Text} (hTaken : ∀ c ∈ taken, allowed c = true)
    (h : ∀ own behind, taken ++ rest = own ++ behind → (∀ c ∈ own, allowed c = true) →
      own ≠ taken → accept ⟨own, [], behind⟩ = none) :
    (many (char allowed)).first? before (taken ++ rest) accept = accept ⟨taken, [], rest⟩ := by
  induction taken generalizing before accept with
  | nil =>
      cases rest with
      | nil => exact first?_many_char_nil
      | cons c rest =>
          rw [List.nil_append, first?_many_char_cons]
          split
          · rename_i hc
            have hNone : (many (char allowed)).first? (some c) rest
                (fun next => accept (Way.append ⟨[c], [], rest⟩ next)) = none := by
              apply first?_eq_none
              intro next hNext
              obtain ⟨hOwn, hGroups⟩ := mem_ways_many_char hNext
              have hSplit : [] ++ c :: rest = (c :: next.taken) ++ next.rest := by
                rw [List.cons_append, taken_append_rest_of_mem_ways hNext]
                rfl
              have hFails := h _ _ hSplit (List.forall_mem_cons.mpr ⟨hc, hOwn⟩)
                (List.cons_ne_nil _ _)
              simpa [Way.append, hGroups] using hFails
            rw [hNone]
            rfl
          · rfl
  | cons c taken ih =>
      obtain ⟨hc, hOwn⟩ := List.forall_mem_cons.mp hTaken
      have hStay : accept (.stay (c :: (taken ++ rest))) = none :=
        h [] _ rfl (fun d hd => absurd hd List.not_mem_nil) (List.cons_ne_nil c taken).symm
      rw [List.cons_append, first?_many_char_cons, if_pos hc, hStay, Option.or_none, ih hOwn]
      · rfl
      · intro own behind hSplit hAll hOther
        exact h (c :: own) behind (congrArg (List.cons c) hSplit)
          (List.forall_mem_cons.mpr ⟨hc, hAll⟩) fun hSame => hOther (List.cons.inj hSame).2

end ManyChar

/-! ## Matches -/

/-- The match at the front of a text. -/
def match? (pattern : Pattern) (before : Option Char) (s : Text) : Option Way :=
  pattern.first? before s some

/-- The groups of a match that takes something, and what is left behind it. -/
def read? (pattern : Pattern) (before : Option Char) (s : Text) :
    Option (List (Text × Text) × Text) :=
  ((pattern.match? before s).filter (·.taken ≠ [])).map fun way => (way.groups, way.rest)

theorem mem_ways_of_match? {pattern : Pattern} (h : pattern.match? before s = some way) :
    way ∈ pattern.ways before s := by
  obtain ⟨found, hFound, hEq⟩ := List.exists_of_findSome?_eq_some h
  cases hEq
  exact hFound

theorem exists_mem_ways_of_read? {pattern : Pattern} {groups : List (Text × Text)}
    (h : pattern.read? before s = some (groups, rest)) :
    ∃ taken, taken ≠ [] ∧ ⟨taken, groups, rest⟩ ∈ pattern.ways before s := by
  obtain ⟨⟨taken, own, behind⟩, hFilter, hEq⟩ := Option.map_eq_some_iff.mp h
  obtain ⟨hMatch, hTaken⟩ := Option.filter_eq_some_iff.mp hFilter
  cases hEq
  exact ⟨taken, by simpa using hTaken, mem_ways_of_match? hMatch⟩

/-- A pattern reads off the groups of its match; a match of nothing is passed over. -/
def recogniser (pattern : Pattern) : Recogniser (List (Text × Text)) where
  read := pattern.read?
  suffix := by
    intro before s groups rest h
    obtain ⟨taken, _, hWay⟩ := exists_mem_ways_of_read? h
    exact ⟨taken, taken_append_rest_of_mem_ways hWay⟩
  shorter := by
    intro before s groups rest h
    obtain ⟨taken, hTaken, hWay⟩ := exists_mem_ways_of_read? h
    have hSplit := congrArg List.length (taken_append_rest_of_mem_ways hWay)
    have hLength := List.length_pos_iff.mpr hTaken
    simp only [List.length_append] at hSplit
    omega

end Pattern

end ValueNames
