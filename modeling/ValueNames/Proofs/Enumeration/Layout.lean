import ValueNames.Proofs.Enumeration.Words
import ValueNames.Text.Word

/-!
# How a body is laid out

Between the tokens of a body there may stand blanks and line feeds, or nothing. Where they
stand decides what is read: the name of an enumerator is its own word only if a blank ends
it, and what follows a line feed is read as if a new enumerator began there.

## Main results

* `words_text` — what is read off a list of enumerators, told from where the blanks stand.
* `members_of_layout` — these are the members, and they are the names of the enumerators
  exactly if each value stands on the line of its name, behind a blank.
-/

namespace ValueNames.Enumeration

open Text Conditional

/-! ## Enumerators -/

/-- What stands between two tokens: blanks and line feeds, or nothing. -/
structure Gap where
  text : Text
  blank : ∀ c ∈ text, isBlank c = true

/-- A token of one or more word characters. -/
structure Token where
  text : Text
  nonempty : text ≠ []
  word : ∀ c ∈ text, isWord c = true

/-- A name does not begin with a digit. -/
structure Identifier extends Token where
  head : ∀ c ∈ text.head?, c.isDigit = false

/-- A number begins with a digit. -/
structure Numeral extends Token where
  head : ∀ c ∈ text.head?, c.isDigit = true

/-- A value given to an enumerator, behind an equals sign between two gaps. -/
structure Assignment where
  before : Gap
  after : Gap
  literal : Numeral

/-- An enumerator between two gaps. -/
structure Enumerator where
  before : Gap
  name : Identifier
  value : Option Assignment
  behind : Gap

/-- The enumerators of a body with the gaps around them, and what follows a trailing comma. -/
structure Layout where
  enumerators : List Enumerator
  nonempty : enumerators ≠ []
  trailing : Option Gap

def Assignment.text (assigned : Assignment) : Text :=
  assigned.before.text ++ '=' :: (assigned.after.text ++ assigned.literal.text)

def Enumerator.text (enumerator : Enumerator) : Text :=
  enumerator.before.text ++ (enumerator.name.text ++
    (enumerator.value.elim [] Assignment.text ++ enumerator.behind.text))

def Layout.text (layout : Layout) : Text :=
  join [','] (layout.enumerators.map Enumerator.text) ++
    layout.trailing.elim [] fun gap => ',' :: gap.text

/-- The names of the enumerators, in order. -/
def Layout.names (layout : Layout) : List Text := layout.enumerators.map (·.name.text)

/--
What is read from the equals sign on, if the word `lead` stands right before it: the
literal is part of the word unless a gap parts them, and is a word of its own only on a
new line.
-/
def Assignment.words (assigned : Assignment) (lead : Text) : List Text :=
  (lead ++ '=' :: if assigned.after.text = [] then assigned.literal.text else []) ::
    if '\n' ∈ assigned.after.text then [assigned.literal.text] else []

/-- What is read from the line behind the name on, if a gap stands behind the name. -/
def Assignment.wordsBelow (assigned : Assignment) : List Text :=
  if '\n' ∈ assigned.before.text then assigned.words []
  else if '\n' ∈ assigned.after.text then [assigned.literal.text]
  else []

/-- What is read off an enumerator. -/
def Enumerator.words (enumerator : Enumerator) : List Text :=
  match enumerator.value with
  | none => [enumerator.name.text]
  | some assigned =>
      if assigned.before.text = [] then assigned.words enumerator.name.text
      else enumerator.name.text :: assigned.wordsBelow

/-- Whether the value stands on the line of the name, with a blank before the equals sign. -/
def Assignment.OnLine (assigned : Assignment) : Prop :=
  assigned.before.text ≠ [] ∧ '\n' ∉ assigned.before.text ∧ '\n' ∉ assigned.after.text

/-! ## Reading a layout -/

theorem Gap.not_mem (gap : Gap) {c : Char} (h : isBlank c = false) : c ∉ gap.text := by
  intro hc
  rw [gap.blank c hc] at h
  cases h

theorem Gap.head (gap : Gap) : ∀ c ∈ gap.text.head?, isBlank c = true :=
  fun c hc => gap.blank c (List.mem_of_mem_head? hc)

/-- A gap with something in it parts what stands before it from what follows. -/
theorem Gap.head_append (gap : Gap) (h : gap.text ≠ []) (s : Text) :
    ∀ c ∈ (gap.text ++ s).head?, isBlank c = true := by
  obtain ⟨d, text, hText⟩ := List.exists_cons_of_ne_nil h
  have hHead := gap.head
  rw [hText] at hHead ⊢
  exact hHead

theorem Token.not_blank (token : Token) : ∀ c ∈ token.text, isBlank c = false :=
  fun c hc => not_isBlank_of_isWord (token.word c hc)

/-- None of the marks between tokens is blank or part of a word. -/
theorem isMark_marks : ∀ c ∈ ['=', ',', '#'], isBlank c = false ∧ isWord c = false := by
  rw [List.forall_mem_cons, List.forall_mem_cons, List.forall_mem_singleton]
  decide +kernel

theorem Gap.comma (gap : Gap) : ',' ∉ gap.text := gap.not_mem (by decide)

theorem not_mem_of_isWord {s : Text} (hWord : ∀ c ∈ s, isWord c = true) {c : Char}
    (hc : c ∈ ['=', ',', '#']) : c ∉ s := by
  intro hMem
  have hMark := (isMark_marks c hc).2
  rw [hWord c hMem] at hMark
  cases hMark

theorem Token.comma (token : Token) : ',' ∉ token.text :=
  not_mem_of_isWord token.word (by simp)

theorem Token.newline (token : Token) : '\n' ∉ token.text := by
  intro hMem
  exact absurd (token.not_blank _ hMem) (by decide)

/-- Behind the last gap nothing is read. -/
theorem words_nextLine_gap (gap : Gap) : words (nextLine gap.text) = [] := by
  have hWords := words_nextLine_gap_append gap.blank []
  rw [List.append_nil] at hWords
  rw [hWords]
  split <;> rfl

/-- A word and a gap behind it. -/
theorem words_append_gap {word : Text} (hWord : ∀ c ∈ word, isBlank c = false)
    (hNonempty : word ≠ []) (hComma : ',' ∉ word) (gap : Gap) :
    words (word ++ gap.text) = [word] := by
  have hBoth : ',' ∉ word ++ gap.text := by simp [hComma, gap.comma]
  rw [words_append hWord hNonempty gap.head hBoth, words_nextLine_gap]

theorem words_token_append_gap (token : Token) (gap : Gap) :
    words (token.text ++ gap.text) = [token.text] :=
  words_append_gap token.not_blank token.nonempty token.comma gap

/-- Behind the equals sign the literal is read only from a line of its own. -/
theorem words_nextLine_after (assigned : Assignment) (behind : Gap) :
    words (nextLine (assigned.after.text ++ (assigned.literal.text ++ behind.text))) =
      if '\n' ∈ assigned.after.text then [assigned.literal.text] else [] := by
  rw [words_nextLine_gap_append assigned.after.blank, words_token_append_gap,
    nextLine_append_of_not_mem assigned.literal.newline, words_nextLine_gap]

/-- What is read from a word on that the equals sign belongs to. -/
theorem words_equals (assigned : Assignment) (behind : Gap) {lead : Text}
    (hLead : ∀ c ∈ lead, isWord c = true) :
    words (lead ++ '=' :: (assigned.after.text ++ (assigned.literal.text ++ behind.text))) =
      assigned.words lead := by
  have hBlank : ∀ c ∈ lead, isBlank c = false := fun c hc => not_isBlank_of_isWord (hLead c hc)
  have hEquals := isMark_marks '=' (by simp)
  have hComma : ',' ∉ lead := not_mem_of_isWord hLead (by simp)
  rw [Assignment.words]
  by_cases hAfter : assigned.after.text = []
  · have hWord : ∀ c ∈ lead ++ '=' :: assigned.literal.text, isBlank c = false := by
      simp only [List.mem_append, List.mem_cons]
      rintro c (hc | rfl | hc)
      · exact hBlank c hc
      · exact hEquals.1
      · exact assigned.literal.not_blank c hc
    have hNoComma : ',' ∉ lead ++ '=' :: assigned.literal.text := by
      simp [hComma, assigned.literal.comma]
    have hRead := words_append_gap hWord (by simp) hNoComma behind
    rw [List.append_assoc, List.cons_append] at hRead
    simp only [hAfter, List.nil_append, if_true, List.not_mem_nil, if_false]
    exact hRead
  · have hWord : ∀ c ∈ lead ++ ['='], isBlank c = false := by
      simp only [List.mem_append, List.mem_singleton]
      rintro c (hc | rfl)
      · exact hBlank c hc
      · exact hEquals.1
    have hNoComma : ',' ∉ (lead ++ ['=']) ++
        (assigned.after.text ++ (assigned.literal.text ++ behind.text)) := by
      simp [hComma, assigned.after.comma, assigned.literal.comma, behind.comma]
    have hRead := words_append hWord (by simp) (assigned.after.head_append hAfter _) hNoComma
    rw [words_nextLine_after, List.append_assoc, List.singleton_append] at hRead
    rw [hRead, if_neg hAfter]

/-- What is read off an enumerator, told from where its blanks stand. -/
theorem words_enumerator (enumerator : Enumerator) :
    words enumerator.text = enumerator.words := by
  obtain ⟨before, name, value, behind⟩ := enumerator
  rw [Enumerator.text, words_gap_append before.blank, Enumerator.words]
  cases value with
  | none => exact words_token_append_gap name.toToken behind
  | some assigned =>
      have hText : assigned.text ++ behind.text = assigned.before.text ++ '=' ::
          (assigned.after.text ++ (assigned.literal.text ++ behind.text)) := by
        simp [Assignment.text]
      simp only [Option.elim_some, hText]
      by_cases hBefore : assigned.before.text = []
      · rw [hBefore, List.nil_append, if_pos rfl]
        exact words_equals assigned behind name.word
      · have hComma : ',' ∉ name.text ++ (assigned.before.text ++ '=' ::
            (assigned.after.text ++ (assigned.literal.text ++ behind.text))) := by
          simp [name.comma, assigned.before.comma, assigned.after.comma, assigned.literal.comma,
            behind.comma]
        have hSkip : ∀ s, nextLine ('=' :: s) = nextLine s :=
          nextLine_append_of_not_mem (s := ['=']) (by decide)
        rw [if_neg hBefore, Assignment.wordsBelow,
          words_append name.not_blank name.nonempty (assigned.before.head_append hBefore _) hComma,
          words_nextLine_gap_append assigned.before.blank, hSkip, words_nextLine_after]
        have hNone : ∀ c ∈ ([] : Text), isWord c = true := by simp
        have hEquals := words_equals assigned behind hNone
        rw [List.nil_append] at hEquals
        rw [hEquals]

theorem words_join (enumerators : List Enumerator) :
    words (join [','] (enumerators.map Enumerator.text)) = enumerators.flatMap (·.words) := by
  induction enumerators with
  | nil => rfl
  | cons enumerator enumerators ih =>
      cases enumerators with
      | nil => rw [List.flatMap_singleton, ← words_enumerator]; rfl
      | cons next enumerators =>
          rw [List.map_cons, List.map_cons, join, List.append_assoc, List.singleton_append,
            words_append_comma, words_enumerator, ← List.map_cons, ih, ← List.flatMap_cons]
          exact fun h => List.cons_ne_nil _ _ h

/-- What is read off a body, told from where the blanks of its enumerators stand. -/
theorem words_text (layout : Layout) :
    words layout.text = layout.enumerators.flatMap (·.words) := by
  rw [Layout.text]
  cases layout.trailing with
  | none => rw [Option.elim_none, List.append_nil, words_join]
  | some gap =>
      rw [Option.elim_some, words_append_comma, words_join, words_gap gap.blank, List.append_nil]

/-! ## The members of a layout -/

/-- The characters of an enumerator. -/
theorem mem_text {enumerator : Enumerator} {c : Char} (h : c ∈ enumerator.text) :
    isBlank c = true ∨ isWord c = true ∨ c = '=' := by
  obtain ⟨before, name, value, behind⟩ := enumerator
  simp only [Enumerator.text, List.mem_append] at h
  rcases h with h | h | h | h
  · exact .inl (before.blank c h)
  · exact .inr (.inl (name.word c h))
  · cases value with
    | none => cases h
    | some assigned =>
        simp only [Option.elim_some, Assignment.text, List.mem_append, List.mem_cons] at h
        rcases h with h | rfl | h | h
        · exact .inl (assigned.before.blank c h)
        · exact .inr (.inr rfl)
        · exact .inl (assigned.after.blank c h)
        · exact .inr (.inl (assigned.literal.word c h))
  · exact .inl (behind.blank c h)

/-- The characters of texts put together are theirs and those of the glue. -/
theorem mem_join {glue : Text} {texts : List Text} {c : Char} (h : c ∈ join glue texts) :
    c ∈ glue ∨ ∃ s ∈ texts, c ∈ s := by
  fun_induction join glue texts with
  | case1 => cases h
  | case2 s => exact .inr ⟨s, List.mem_cons_self, h⟩
  | case3 s rest _ ih =>
      simp only [List.mem_append] at h
      rcases h with (h | h) | h
      · exact .inr ⟨s, List.mem_cons_self, h⟩
      · exact .inl h
      · rcases ih h with h | ⟨t, ht, hc⟩
        · exact .inl h
        · exact .inr ⟨t, List.mem_cons_of_mem s ht, hc⟩

theorem Layout.hash (layout : Layout) : '#' ∉ layout.text := by
  have hMark := isMark_marks '#' (by simp)
  intro h
  rcases List.mem_append.mp h with h | h
  · rcases mem_join h with h | ⟨s, hs, h⟩
    · exact absurd h (by decide)
    · obtain ⟨enumerator, -, rfl⟩ := List.mem_map.mp hs
      rcases mem_text h with h | h | h
      · rw [hMark.1] at h
        cases h
      · rw [hMark.2] at h
        cases h
      · exact absurd h (by decide)
  · cases hTrailing : layout.trailing with
    | none =>
        rw [hTrailing] at h
        cases h
    | some gap =>
        rw [hTrailing, Option.elim_some, List.mem_cons] at h
        rcases h with h | h
        · exact absurd h (by decide)
        · exact gap.not_mem hMark.1 h

/-- A body that gives a word is not blank. -/
theorem not_allBlank_of_words {body : Text} (h : words body ≠ []) : allBlank body = false := by
  cases hBlank : allBlank body with
  | false => rfl
  | true => exact absurd (words_gap (List.all_eq_true.mp hBlank)) h

theorem Enumerator.words_ne_nil (enumerator : Enumerator) : enumerator.words ≠ [] := by
  unfold Enumerator.words
  split
  · exact List.cons_ne_nil _ _
  · split <;> exact List.cons_ne_nil _ _

/-- An enumerator with its value on the line of its name gives the name. -/
theorem Enumerator.words_eq (enumerator : Enumerator)
    (h : ∀ assigned ∈ enumerator.value, assigned.OnLine) :
    enumerator.words = [enumerator.name.text] := by
  unfold Enumerator.words
  split
  · rfl
  · rename_i assigned hValue
    obtain ⟨hGap, hBefore, hAfter⟩ := h assigned hValue
    rw [if_neg hGap, Assignment.wordsBelow, if_neg hBefore, if_neg hAfter]

/-- An enumerator that gives nothing but names has its value on the line of its name. -/
theorem onLine_of_words {enumerator : Enumerator}
    (hNames : ∀ word ∈ enumerator.words, ∃ name : Identifier, word = name.text)
    {assigned : Assignment} (hValue : assigned ∈ enumerator.value) : assigned.OnLine := by
  have hEquals : ∀ word ∈ enumerator.words, '=' ∉ word := by
    intro word hWord
    obtain ⟨name, rfl⟩ := hNames word hWord
    exact not_mem_of_isWord name.word (by simp)
  have hLiteral : assigned.literal.text ∉ enumerator.words := by
    intro hWord
    obtain ⟨name, hName⟩ := hNames _ hWord
    obtain ⟨c, text, hText⟩ := List.exists_cons_of_ne_nil assigned.literal.nonempty
    have hDigit := assigned.literal.head c (by rw [hText]; rfl)
    have hNotDigit := name.head c (by rw [← hName, hText]; rfl)
    rw [hDigit] at hNotDigit
    cases hNotDigit
  have hMember : enumerator.words =
      if assigned.before.text = [] then assigned.words enumerator.name.text
      else enumerator.name.text :: assigned.wordsBelow := by
    rw [Enumerator.words, Option.mem_def.mp hValue]
  have hGap : assigned.before.text ≠ [] := by
    intro hNone
    rw [if_pos hNone, Assignment.words] at hMember
    exact hEquals (enumerator.name.text ++ '=' :: _) (hMember ▸ List.mem_cons_self) (by simp)
  rw [if_neg hGap] at hMember
  have hBefore : '\n' ∉ assigned.before.text := by
    intro hNewline
    rw [Assignment.wordsBelow, if_pos hNewline, Assignment.words] at hMember
    exact hEquals ([] ++ '=' :: _) (hMember ▸ List.mem_cons_of_mem _ List.mem_cons_self) (by simp)
  refine ⟨hGap, hBefore, fun hNewline => hLiteral ?_⟩
  rw [hMember, Assignment.wordsBelow, if_neg hBefore, if_pos hNewline]
  exact List.mem_cons_of_mem _ List.mem_cons_self

/-- The words of a layout are the names exactly if every value stands on the line of its name. -/
theorem flatMap_words_eq_names_iff (layout : Layout) :
    layout.enumerators.flatMap (·.words) = layout.names ↔
      ∀ enumerator ∈ layout.enumerators, ∀ assigned ∈ enumerator.value, assigned.OnLine := by
  constructor
  · intro hNames enumerator hMem assigned hValue
    refine onLine_of_words (fun word hWord => ?_) hValue
    have hIn : word ∈ layout.names := by
      rw [← hNames]
      exact List.mem_flatMap.mpr ⟨enumerator, hMem, hWord⟩
    obtain ⟨other, -, rfl⟩ := List.mem_map.mp hIn
    exact ⟨other.name, rfl⟩
  · intro hLine
    have hEach : layout.enumerators.map (·.words) =
        layout.enumerators.map fun enumerator => [enumerator.name.text] :=
      List.map_congr_left fun enumerator hMem => enumerator.words_eq (hLine enumerator hMem)
    rw [Layout.names, List.map_eq_flatMap, List.flatMap_def, hEach, ← List.flatMap_def]

/-- A body that is not blank makes an enumeration, if it has a tag or a typedef name. -/
theorem exists_ofParts {tag body typedefName : Text} (span : Span)
    (hNamed : ¬ (tag = [] ∧ typedefName = [])) (hBody : allBlank body = false) :
    ∃ enumeration, ofParts tag body typedefName span = .ok enumeration ∧
      enumeration.body = entries body := by
  rw [ofParts, if_neg hNamed, hBody, if_neg Bool.false_ne_true]
  split
  · exact ⟨_, rfl, rfl⟩
  · exact ⟨_, rfl, rfl⟩

/-- An enumeration with entries that are all enumerators has these as its members. -/
theorem members_eq {enumeration : Enumeration} {names : List Text}
    (hBody : enumeration.body = names.map .member) : enumeration.members = names := by
  rw [members, hBody, List.filterMap_map]
  exact List.filterMap_some

/--
An enumeration with a tag or a typedef name is made of every layout of enumerators. Its
members are told from where the blanks stand, none of its entries is a directive line, and
the members are the names of the enumerators exactly if every value stands on the line of
its name, behind a blank.
-/
theorem members_of_layout (layout : Layout) (tag typedefName : Text) (span : Span)
    (hNamed : ¬ (tag = [] ∧ typedefName = [])) :
    ∃ enumeration, ofParts tag layout.text typedefName span = .ok enumeration ∧
      (∀ text, BodyLine.directive text ∉ enumeration.body) ∧
      enumeration.members = layout.enumerators.flatMap (·.words) ∧
      (enumeration.members = layout.names ↔
        ∀ enumerator ∈ layout.enumerators, ∀ assigned ∈ enumerator.value, assigned.OnLine) := by
  have hNotBlank : allBlank layout.text = false := by
    obtain ⟨enumerator, others, hEnumerators⟩ := List.exists_cons_of_ne_nil layout.nonempty
    apply not_allBlank_of_words
    rw [words_text, hEnumerators, List.flatMap_cons]
    exact fun h => enumerator.words_ne_nil (List.append_eq_nil_iff.mp h).1
  obtain ⟨enumeration, hParts, hBody⟩ := exists_ofParts span hNamed hNotBlank
  rw [entries_eq layout.hash, words_text] at hBody
  have hMembers := members_eq hBody
  refine ⟨enumeration, hParts, ?_, hMembers, ?_⟩
  · intro text hMem
    rw [hBody] at hMem
    obtain ⟨name, -, hName⟩ := List.mem_map.mp hMem
    cases hName
  · rw [hMembers]
    exact flatMap_words_eq_names_iff layout

/-- Nothing between two tokens. -/
def noGap : Gap := ⟨[], by simp⟩

/-- A space between two tokens. -/
def space : Gap := ⟨[' '], List.forall_mem_singleton.mpr (by decide)⟩

/-- A line end between two tokens. -/
def newLine : Gap := ⟨['\n'], List.forall_mem_singleton.mpr (by decide)⟩

/-- The token of one letter or digit. -/
def letter (c : Char) (h : isWord c = true) : Token :=
  ⟨[c], List.cons_ne_nil c [], List.forall_mem_singleton.mpr h⟩

def identifierA : Identifier := ⟨letter 'A' (by decide), by rintro c ⟨⟩; decide⟩

def identifierB : Identifier := ⟨letter 'B' (by decide), by rintro c ⟨⟩; decide⟩

def numeralOne : Numeral := ⟨letter '1' (by decide), by rintro c ⟨⟩; decide⟩

/-- The body `A = 1,` and on the next line `B,`. -/
def spaced : Layout where
  enumerators :=
    [⟨noGap, identifierA, some ⟨space, space, numeralOne⟩, noGap⟩,
      ⟨newLine, identifierB, none, noGap⟩]
  nonempty := by simp
  trailing := some noGap

/-- With blanks around the equals sign the members are the names. -/
theorem members_of_spaced :
    ¬ ("t".toList = [] ∧ ([] : Text) = []) ∧ spaced.text = "A = 1,\nB,".toList ∧
      ∃ enumeration, ofParts "t".toList spaced.text [] ⟨0, 9⟩ = .ok enumeration ∧
        enumeration.members = ["A".toList, "B".toList] := by
  obtain ⟨enumeration, hParts, -, hMembers, -⟩ :=
    members_of_layout spaced "t".toList [] ⟨0, 9⟩ (by decide)
  exact ⟨by decide, by decide, enumeration, hParts, hMembers.trans (by decide)⟩

/-- The body `A=1`. -/
def touching : Layout where
  enumerators := [⟨noGap, identifierA, some ⟨noGap, noGap, numeralOne⟩, noGap⟩]
  nonempty := by simp
  trailing := none

/-- Without blanks the equals sign and the value are taken for part of the name. -/
theorem members_of_touching :
    touching.text = "A=1".toList ∧ touching.names = ["A".toList] ∧
      ∃ enumeration, ofParts "t".toList touching.text [] ⟨0, 3⟩ = .ok enumeration ∧
        enumeration.members = ["A=1".toList] ∧ enumeration.members ≠ touching.names :=
  ⟨by decide, by decide, ⟨"t".toList, "enum t".toList, [.member "A=1".toList], ⟨0, 3⟩⟩, by decide,
    by decide, by decide⟩

end ValueNames.Enumeration
