import ValueNames.Proofs.Conditional.Joined
import ValueNames.Proofs.Pattern.Matching

/-!
# The pattern of a directive line

A directive line is described by the pattern

    ^[ \t]*#[ \t]*(directive: if[ \t]|ifndef[ \t]|ifdef[ \t]|else|endif)[ \t]*
      (param: (.*\\\r?\n)*.*)$

Its three runs of blanks take all they can, since neither the mark nor a keyword begins
with a blank and the parameter takes anything. The parameter goes on as long as its last
line joins the next one, so that it takes a logical line; here the repeated `.*` has to
leave the backslash, with or without a carriage return behind it, to what follows.

## Main results

* `first?_param` — the parameter is a logical line.
* `read?_of_isWritten`, `read?_eq_none` — the pattern reads a directive line off the start of
  a line, and nothing anywhere else.
* `lineAt?_of_isWritten`, `exists_isWritten` — it is there that `lineAt?` reads one.
-/

namespace ValueNames.Conditional

open Text Pattern

/-! ## The parts of the pattern -/

/-- Any spaces and tabs. -/
def blanksPattern : Pattern := many (char isSpaceOrTab)

/-- An opening keyword and the space or tab behind it. -/
def openerPattern (opener : Opener) : Pattern := seq (word opener.word) (char isSpaceOrTab)

/-- The keyword of a directive. -/
def keywordPattern : Pattern :=
  group "directive".toList
    (either (openerPattern .expression) (either (openerPattern .undefined)
      (either (openerPattern .defined)
        (either (word Closer.alternative.word) (word Closer.final.word)))))

/-- Any characters but line feeds. -/
def withinLine : Pattern := many (char (· ≠ '\n'))

/-- What joins the next line: a backslash, perhaps a carriage return, and the line feed. -/
def joinPattern : Pattern :=
  seq (char (· = '\\')) (seq (atMostOnce (char (· = '\r'))) (char (· = '\n')))

/-- A line that is joined to the next one. -/
def joinedPattern : Pattern := seq withinLine joinPattern

/-- The text behind a keyword, over all lines that are joined. -/
def paramPattern : Pattern := group "param".toList (seq (many joinedPattern) withinLine)

/-- The pattern of a directive line. -/
def directivePattern : Pattern :=
  seq lineStart (seq blanksPattern (seq (char (· = '#')) (seq blanksPattern
    (seq keywordPattern (seq blanksPattern (seq paramPattern lineEnd))))))

variable {α : Type} {before : Option Char} {s rest : Text} {way : Way} {accept : Way → Option α}

/-! ## The first line of a text -/

/-- Every text begins with a line that ends at a line feed or with the text. -/
theorem exists_line (s : Text) :
    ∃ line rest, s = line ++ rest ∧ '\n' ∉ line ∧ (rest = [] ∨ ∃ next, rest = '\n' :: next) := by
  refine ⟨s.takeWhile (· ≠ '\n'), s.dropWhile (· ≠ '\n'), List.takeWhile_append_dropWhile.symm, ?_,
    dropWhile_newline s⟩
  intro hFeed
  simpa using List.all_eq_true.mp List.all_takeWhile _ hFeed

theorem span_line {line : Text} (hLine : '\n' ∉ line)
    (hRest : rest = [] ∨ ∃ next, rest = '\n' :: next) :
    (line ++ rest).takeWhile (· ≠ '\n') = line ∧ (line ++ rest).dropWhile (· ≠ '\n') = rest := by
  have hAll : ∀ c ∈ line, decide (c ≠ '\n') = true :=
    fun c hc => decide_eq_true fun hEq => hLine (hEq ▸ hc)
  rw [List.takeWhile_append_of_pos hAll, List.dropWhile_append_of_pos hAll]
  rcases hRest with rfl | ⟨next, rfl⟩
  · simp
  · simp

/-- A line is known from the text it begins. -/
theorem line_append_inj {line other next tail : Text} (hLine : '\n' ∉ line) (hOther : '\n' ∉ other)
    (h : line ++ '\n' :: next = other ++ '\n' :: tail) : line = other := by
  have hBoth := congrArg (List.takeWhile (· ≠ '\n')) h
  rwa [(span_line hLine (.inr ⟨next, rfl⟩)).1, (span_line hOther (.inr ⟨tail, rfl⟩)).1] at hBoth

/-! ## Joined lines -/

/-- What joins the next line, at the end of a line. -/
def IsJoin (join : Text) : Prop := join = ['\\'] ∨ join = ['\\', '\r']

theorem continues_iff_exists : Continues s ↔ ∃ own join, IsJoin join ∧ s = own ++ join := by
  constructor
  · rintro (⟨own, rfl⟩ | ⟨own, rfl⟩)
    · exact ⟨own, _, .inl rfl, rfl⟩
    · exact ⟨own, _, .inr rfl, rfl⟩
  · rintro ⟨own, join, hJoin, rfl⟩
    exact hJoin.imp (fun h => ⟨own, congrArg (own ++ ·) h.symm⟩)
      (fun h => ⟨own, congrArg (own ++ ·) h.symm⟩)

theorem IsJoin.not_mem {join : Text} (h : IsJoin join) : '\n' ∉ join := by
  rcases h with rfl | rfl <;> decide

/-- What joins the next line is known from the end of the line. -/
theorem IsJoin.append_inj {own other join last : Text} (hJoin : IsJoin join) (hLast : IsJoin last)
    (h : own ++ join = other ++ last) : own = other := by
  have hEnds := congrArg List.getLast? h
  rcases hJoin with rfl | rfl
  · rcases hLast with rfl | rfl
    · exact List.append_cancel_right h
    · simp at hEnds
  · rcases hLast with rfl | rfl
    · simp at hEnds
    · exact List.append_cancel_right h

theorem ways_joinPattern {join : Text} (h : IsJoin join) :
    joinPattern.ways before (join ++ '\n' :: rest) = [⟨join ++ ['\n'], [], rest⟩] := by
  rcases h with rfl | rfl
  · rfl
  · rfl

theorem exists_join_of_mem_ways (h : way ∈ joinPattern.ways before s) :
    ∃ join, IsJoin join ∧ way = ⟨join ++ ['\n'], [], way.rest⟩ ∧ s = join ++ '\n' :: way.rest := by
  obtain ⟨slash, hSlash, next, hNext, rfl⟩ := mem_ways_seq.mp h
  obtain ⟨c, hc, hSplit, hFirst⟩ := mem_ways_char.mp hSlash
  obtain rfl : c = '\\' := by simpa using hc
  obtain ⟨start, hStart, feed, hFeed, rfl⟩ := mem_ways_seq.mp hNext
  obtain ⟨d, hd, hFeedSplit, hLast⟩ := mem_ways_char.mp hFeed
  obtain rfl : d = '\n' := by simpa using hd
  rcases List.mem_append.mp hStart with hReturn | hNone
  · obtain ⟨e, he, hReturnSplit, hOwn⟩ := mem_ways_char.mp hReturn
    obtain rfl : e = '\r' := by simpa using he
    refine ⟨['\\', '\r'], .inr rfl, ?_, ?_⟩
    · rw [hFirst, hOwn, hLast]
      rfl
    · rw [hSplit, hReturnSplit, hFeedSplit]
      rfl
  · obtain rfl := List.mem_singleton.mp hNone
    refine ⟨['\\'], .inl rfl, ?_, ?_⟩
    · rw [hFirst, hLast]
      rfl
    · rw [hSplit]
      exact congrArg _ hFeedSplit

/-- A joined line is a line with what joins the next one at its end. -/
theorem exists_line_of_mem_ways (h : way ∈ joinedPattern.ways before s) :
    ∃ line, '\n' ∉ line ∧ Continues line ∧ way = ⟨line ++ ['\n'], [], way.rest⟩ := by
  obtain ⟨start, hStart, next, hNext, rfl⟩ := mem_ways_seq.mp h
  obtain ⟨hOwn, hGroups⟩ := mem_ways_many_char hStart
  obtain ⟨join, hJoin, hWay, _⟩ := exists_join_of_mem_ways hNext
  refine ⟨start.taken ++ join, ?_, continues_iff_exists.mpr ⟨_, join, hJoin, rfl⟩, ?_⟩
  · rw [List.mem_append, not_or]
    exact ⟨fun hFeed => by simpa using hOwn _ hFeed, hJoin.not_mem⟩
  · rw [hWay]
    simp [Way.append, hGroups]

/-- Where a line joins the next one, it is matched up to its line feed. -/
theorem first?_joinedPattern {line : Text} (hLine : '\n' ∉ line) (hJoins : Continues line) :
    joinedPattern.first? before (line ++ '\n' :: rest) accept =
      accept ⟨line ++ ['\n'], [], rest⟩ := by
  obtain ⟨own, join, hJoin, rfl⟩ := continues_iff_exists.mp hJoins
  have hOwn : ∀ c ∈ own, decide (c ≠ '\n') = true := by
    intro c hc
    rw [decide_eq_true_eq]
    rintro rfl
    exact hLine (List.mem_append_left join hc)
  rw [joinedPattern, first?_seq, List.append_assoc, withinLine, first?_many_char_eq hOwn]
  · rw [first?, ways_joinPattern hJoin, List.findSome?_singleton, Way.append, List.append_assoc]
    rfl
  · -- Another text before what joins the line would make it a different line.
    intro other behind hSplit hOther hNe
    apply first?_eq_none
    intro tail hTail
    obtain ⟨last, hLast, _, rfl⟩ := exists_join_of_mem_ways hTail
    have hBehind : '\n' ∉ other ++ last := by
      rw [List.mem_append, not_or]
      exact ⟨fun hFeed => by simpa using hOther _ hFeed, hLast.not_mem⟩
    rw [← List.append_assoc, ← List.append_assoc] at hSplit
    exact absurd (hJoin.append_inj hLast (line_append_inj hLine hBehind hSplit)).symm hNe

/-- Where the first line joins nothing, no joined line is matched. -/
theorem first?_joinedPattern_eq_none {line : Text} (hLine : '\n' ∉ line)
    (hRest : rest = [] ∨ ∃ next, rest = '\n' :: next ∧ ¬ Continues line) :
    joinedPattern.first? before (line ++ rest) accept = none := by
  apply first?_eq_none
  intro way hWay
  obtain ⟨own, hOwn, hJoins, hEq⟩ := exists_line_of_mem_ways hWay
  have hSplit := taken_append_rest_of_mem_ways hWay
  rw [hEq, List.append_assoc, List.singleton_append] at hSplit
  rcases hRest with rfl | ⟨next, rfl, hEnd⟩
  · rw [List.append_nil] at hSplit
    exact absurd (hSplit ▸ List.mem_append_right own List.mem_cons_self) hLine
  · exact absurd (line_append_inj hOwn hLine hSplit ▸ hJoins) hEnd

/-- All lines that are joined, and the line they are joined to, are a logical line. -/
theorem first?_lines
    (h : ∀ taken rest, (rest = [] ∨ ∃ next, rest = '\n' :: next) →
      (accept ⟨taken, [], rest⟩).isSome = true) :
    (seq (many joinedPattern) withinLine).first? before s accept =
      accept ⟨(logicalLine s).1, [], (logicalLine s).2⟩ := by
  generalize hLength : s.length = n
  induction n using Nat.strongRecOn generalizing before s accept with
  | _ n ih =>
      obtain ⟨line, rest, rfl, hLine, hRest⟩ := exists_line s
      obtain ⟨hTaken, hDropped⟩ := span_line hLine hRest
      have hWithin : withinLine.first? before (line ++ rest) accept = accept ⟨line, [], rest⟩ := by
        rw [withinLine, first?_many_char, hTaken, hDropped]
        rw [hTaken, hDropped]
        exact h line rest hRest
      have hOwn := isJoined_of_not_mem hLine
      rw [first?_seq_many, hWithin]
      rcases hRest with rfl | ⟨next, rfl⟩
      · rw [first?_joinedPattern_eq_none hLine (.inl rfl), Option.none_or, List.append_nil, hOwn]
      · by_cases hJoins : Continues line
        · have hShorter : next.length < (line ++ '\n' :: next).length := by
            rw [List.length_append, List.length_cons]
            omega
          have hSome := h (line ++ '\n' :: (logicalLine next).1) _ (logicalLine_snd next)
          rw [first?_joinedPattern hLine hJoins, if_pos hShorter,
            ih next.length (hLength ▸ hShorter) ?_ rfl, logicalLine_append_of_continues hOwn hJoins]
          · simp only [Way.append, List.append_assoc, List.singleton_append, List.append_nil]
            exact Option.or_of_isSome hSome
          · intro taken rest hEnd
            simpa [Way.append] using h (line ++ '\n' :: taken) rest hEnd
        · rw [first?_joinedPattern_eq_none hLine (.inr ⟨next, rfl, hJoins⟩), Option.none_or,
            hOwn.append_newline hJoins]

/-- The parameter is a logical line. -/
theorem first?_param (h : ∀ way, (accept way).isSome = true) :
    (seq paramPattern lineEnd).first? before s accept =
      accept ⟨(logicalLine s).1, [("param".toList, (logicalLine s).1)], (logicalLine s).2⟩ := by
  have hEnd : ∀ taken rest, (rest = [] ∨ ∃ next, rest = '\n' :: next) →
      (lineEnd.first? (Way.last? ((⟨taken, [], rest⟩ : Way).named "param".toList) before) rest
        fun next => accept (((⟨taken, [], rest⟩ : Way).named "param".toList).append next)) =
      accept ⟨taken, [("param".toList, taken)], rest⟩ := by
    intro taken rest hRest
    rw [first?_lineEnd, if_pos]
    · simp [Way.append, Way.named, Way.stay]
    · rcases hRest with rfl | ⟨next, rfl⟩
      · exact .inl rfl
      · exact .inr rfl
  rw [first?_seq, paramPattern, first?_group, first?_lines]
  · exact hEnd _ _ (logicalLine_snd s)
  · intro taken rest hRest
    exact (congrArg Option.isSome (hEnd taken rest hRest)).trans (h _)

/-! ## Keywords -/

theorem ways_openerPattern (opener : Opener) :
    (openerPattern opener).ways before s =
      match stripLead? opener.word s with
      | some (c :: rest) => if isSpaceOrTab c then [⟨opener.word ++ [c], [], rest⟩] else []
      | _ => [] := by
  rw [openerPattern, ways_seq, ways_word]
  match stripLead? opener.word s with
  | none => rfl
  | some [] => rfl
  | some (c :: rest) =>
      rw [Option.toList_some, List.map_singleton, List.flatMap_singleton, ways_char_cons]
      by_cases hc : isSpaceOrTab c = true
      · simp [hc, Way.append]
      · simp [hc]

/-- A keyword is matched where it stands, and by no other branch. -/
theorem ways_keywordPattern {directive : Directive} {lead : Text} (h : directive.IsLead lead) :
    keywordPattern.ways before (lead ++ rest) = [⟨lead, [("directive".toList, lead)], rest⟩] := by
  simp only [keywordPattern, ways_group, ways_either, ways_openerPattern, ways_word]
  cases directive with
  | closes closer =>
      obtain rfl := h
      cases closer with
      | alternative => rfl
      | final => rfl
  | opens opener =>
      obtain ⟨c, hc, rfl⟩ := h
      have hKinds := isSpaceOrTab_iff.mp hc
      cases opener with
      | expression => rcases hKinds with rfl | rfl <;> rfl
      | defined => rcases hKinds with rfl | rfl <;> rfl
      | undefined => rcases hKinds with rfl | rfl <;> rfl

theorem exists_isLead_of_mem_ways (h : way ∈ keywordPattern.ways before s) :
    ∃ directive : Directive, directive.IsLead way.taken := by
  have hOpener : ∀ {opener : Opener} {way : Way}, way ∈ (openerPattern opener).ways before s →
      ∃ directive : Directive, directive.IsLead way.taken := by
    intro opener way hWay
    obtain ⟨start, hStart, next, hNext, rfl⟩ := mem_ways_seq.mp hWay
    obtain ⟨c, hc, _, hBlank⟩ := mem_ways_char.mp hNext
    rw [eq_of_mem_ways_word hStart, hBlank]
    exact ⟨.opens opener, c, hc, rfl⟩
  have hCloser : ∀ {closer : Closer} {way : Way}, way ∈ (word closer.word).ways before s →
      ∃ directive : Directive, directive.IsLead way.taken := by
    intro closer way hWay
    rw [eq_of_mem_ways_word hWay]
    exact ⟨.closes closer, rfl⟩
  obtain ⟨own, hOwn, rfl⟩ := List.mem_map.mp h
  simp only [Way.named]
  rcases List.mem_append.mp hOwn with hIf | hOwn
  · exact hOpener hIf
  rcases List.mem_append.mp hOwn with hIfndef | hOwn
  · exact hOpener hIfndef
  rcases List.mem_append.mp hOwn with hIfdef | hOwn
  · exact hOpener hIfdef
  rcases List.mem_append.mp hOwn with hElse | hEndif
  · exact hCloser hElse
  · exact hCloser hEndif

/-- No keyword begins with a blank. -/
theorem ways_keywordPattern_eq_nil {c : Char} (hc : isSpaceOrTab c = true) :
    keywordPattern.ways before (c :: s) = [] := by
  rw [List.eq_nil_iff_forall_not_mem]
  intro way hWay
  obtain ⟨directive, hLead⟩ := exists_isLead_of_mem_ways hWay
  obtain ⟨⟨first, tail, hFirst, hBlank, _⟩, _⟩ := hLead.head
  have hSplit := taken_append_rest_of_mem_ways hWay
  rw [hFirst] at hSplit
  obtain ⟨rfl, _⟩ := List.cons.inj hSplit
  exact absurd (hc.symm.trans hBlank) (by decide)

/-! ## Directive lines -/

/-- The pieces of a directive line up to its keyword, and the text behind it. -/
structure IsWritten (s : Text) (directive : Directive) (lead behind : Text) : Prop where
  isLead : directive.IsLead lead
  split : ∃ blanks gap, (∀ c ∈ blanks, isSpaceOrTab c = true) ∧ (∀ c ∈ gap, isSpaceOrTab c = true) ∧
    s = blanks ++ '#' :: (gap ++ (lead ++ behind))

/-- The groups of a match. -/
def groupsOf (lead param : Text) : List (Text × Text) :=
  [("directive".toList, lead), ("param".toList, param)]

/-- What can follow blanks in the pattern does not begin with one. -/
theorem first?_blanksPattern {blanks : Text} (hBlanks : ∀ c ∈ blanks, isSpaceOrTab c = true)
    (hHead : ∀ c ∈ rest.head?, isSpaceOrTab c = false)
    (h : ∀ own c behind, isSpaceOrTab c = true → accept ⟨own, [], c :: behind⟩ = none) :
    blanksPattern.first? before (blanks ++ rest) accept = accept ⟨blanks, [], rest⟩ := by
  rw [blanksPattern, first?_many_char_of_head h, List.takeWhile_append_of_pos hBlanks,
    List.dropWhile_append_of_pos hBlanks]
  cases rest with
  | nil => simp
  | cons c rest =>
      have hc : ¬ isSpaceOrTab c = true := by simp [hHead c rfl]
      rw [List.takeWhile_cons_of_neg hc, List.dropWhile_cons_of_neg hc, List.append_nil]

/-- Behind a keyword come blanks and the parameter. -/
theorem first?_behind {behind : Text} (h : ∀ way, (accept way).isSome = true) :
    (seq blanksPattern (seq paramPattern lineEnd)).first? before behind accept =
      accept ⟨behind.takeWhile isSpaceOrTab ++ (logicalLine (behind.dropWhile isSpaceOrTab)).1,
        [("param".toList, (logicalLine (behind.dropWhile isSpaceOrTab)).1)],
        (logicalLine (behind.dropWhile isSpaceOrTab)).2⟩ := by
  rw [first?_seq, blanksPattern, first?_many_char]
  · rw [first?_param fun way => h _]
    rfl
  · rw [first?_param fun way => h _]
    exact h _

/-- At the start of a line the pattern matches where a directive line is written. -/
theorem match?_directivePattern {directive : Directive} {lead behind : Text}
    (hStart : before = none ∨ before = some '\n') (h : IsWritten s directive lead behind) :
    ∃ taken, taken ≠ [] ∧ directivePattern.match? before s =
      some ⟨taken, groupsOf lead (logicalLine (behind.dropWhile isSpaceOrTab)).1,
        (logicalLine (behind.dropWhile isSpaceOrTab)).2⟩ := by
  obtain ⟨hLead, blanks, gap, hBlanks, hGap, rfl⟩ := h
  obtain ⟨⟨first, tail, hFirst, hBlank, _⟩, _⟩ := hLead.head
  rw [match?, directivePattern, first?_seq, first?_lineStart, if_pos hStart, first?_seq,
    Way.rest_stay, first?_blanksPattern hBlanks (by simp [isSpaceOrTab])]
  · rw [first?_seq, first?_char_cons, if_pos (by simp), first?_seq,
      first?_blanksPattern hGap (by simp [hFirst, hBlank])]
    · rw [first?_seq, first?, ways_keywordPattern hLead, List.findSome?_singleton,
        first?_behind fun way => rfl]
      refine ⟨_, ?_, rfl⟩
      simp [Way.append, Way.stay]
    · intro own c behind hc
      simp only
      rw [first?_seq, first?, ways_keywordPattern_eq_nil hc]
      rfl
  · intro own c behind hc
    have hMark : ¬ decide (c = '#') = true := by
      rw [decide_eq_true_eq]
      rintro rfl
      exact absurd hc (by decide)
    simp only
    rw [first?_seq, first?_char_cons, if_neg hMark]

theorem exists_isWritten_of_mem_ways (h : way ∈ directivePattern.ways before s) :
    (before = none ∨ before = some '\n') ∧
      ∃ directive lead behind, IsWritten s directive lead behind := by
  obtain ⟨start, hStart, next, hNext, rfl⟩ := mem_ways_seq.mp h
  obtain ⟨hBefore, rfl⟩ := mem_ite_iff.mp hStart
  obtain ⟨blanks, hBlanks, _, hNext, _⟩ := mem_ways_seq.mp hNext
  obtain ⟨mark, hMark, _, hNext, _⟩ := mem_ways_seq.mp hNext
  obtain ⟨gap, hGap, _, hNext, _⟩ := mem_ways_seq.mp hNext
  obtain ⟨keyword, hKeyword, _⟩ := mem_ways_seq.mp hNext
  obtain ⟨c, hc, hMarkSplit, _⟩ := mem_ways_char.mp hMark
  obtain rfl : c = '#' := by simpa using hc
  obtain ⟨directive, hLead⟩ := exists_isLead_of_mem_ways hKeyword
  refine ⟨hBefore, directive, keyword.taken, keyword.rest, hLead, blanks.taken, gap.taken,
    (mem_ways_many_char hBlanks).1, (mem_ways_many_char hGap).1, ?_⟩
  rw [taken_append_rest_of_mem_ways hKeyword, taken_append_rest_of_mem_ways hGap, ← hMarkSplit,
    taken_append_rest_of_mem_ways hBlanks]
  rfl

/-- Where a directive line is written at the start of a line, its keyword and parameter are read. -/
theorem read?_of_isWritten {directive : Directive} {lead behind : Text}
    (hStart : before = none ∨ before = some '\n') (h : IsWritten s directive lead behind) :
    directivePattern.read? before s =
      some (groupsOf lead (logicalLine (behind.dropWhile isSpaceOrTab)).1,
        (logicalLine (behind.dropWhile isSpaceOrTab)).2) := by
  obtain ⟨taken, hTaken, hMatch⟩ := match?_directivePattern hStart h
  rw [read?, hMatch, Option.filter_some, if_pos (by simpa using hTaken)]
  rfl

/-- Elsewhere nothing is read. -/
theorem read?_eq_none
    (h : (before = none ∨ before = some '\n') → ∀ directive lead behind,
      ¬ IsWritten s directive lead behind) : directivePattern.read? before s = none := by
  rw [Option.eq_none_iff_forall_not_mem]
  intro found hFound
  obtain ⟨taken, _, hWay⟩ := exists_mem_ways_of_read? hFound
  obtain ⟨hStart, directive, lead, behind, hWritten⟩ := exists_isWritten_of_mem_ways hWay
  exact h hStart directive lead behind hWritten

/-- A directive line is read off the text exactly where one is written. -/
theorem lineAt?_of_isWritten {directive : Directive} {lead behind : Text} (offset : Nat)
    (h : IsWritten s directive lead behind) :
    lineAt? offset s =
      some (⟨directive, trimEnd (logicalLine (behind.dropWhile isSpaceOrTab)).1,
        ⟨offset, offset + (size s - size (logicalLine (behind.dropWhile isSpaceOrTab)).2)⟩⟩,
        (logicalLine (behind.dropWhile isSpaceOrTab)).2) := by
  obtain ⟨hLead, blanks, gap, hBlanks, hGap, hSplit⟩ := h
  exact lineAt?_eq_some_iff.mpr
    ⟨blanks, gap, lead, behind, hBlanks, hGap, hLead, hSplit, rfl, rfl, rfl⟩

theorem exists_isWritten {offset : Nat} {line : DirectiveLine}
    (h : lineAt? offset s = some (line, rest)) :
    ∃ lead behind, IsWritten s line.directive lead behind := by
  obtain ⟨blanks, gap, lead, behind, hBlanks, hGap, hLead, hSplit, _⟩ := lineAt?_eq_some_iff.mp h
  exact ⟨lead, behind, hLead, blanks, gap, hBlanks, hGap, hSplit⟩

end ValueNames.Conditional
