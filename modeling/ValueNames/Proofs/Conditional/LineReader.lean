import ValueNames.Proofs.Conditional.Pattern
import ValueNames.Proofs.Text.Search

/-!
# Reading directive lines line by line

The matches of the directive pattern can be told without the pattern. Go through the lines
of a text: one that is blanks, `#`, blanks and a keyword starts a directive, which takes each
next line as long as the last one taken joins it, and any other line is passed over. What a
directive takes is not looked at again.

## Main results

* `searchFrom_plain`, `searchFrom_directive` — how a search for the pattern goes on behind a
  line, and behind a directive line.
* `logicalLine_flatMap` — the lines joined to the first one make up its logical line.
* `readsLines_iff_matches` — the line reader finds the matches of the pattern, and they are
  the directive lines of the text.
-/

namespace ValueNames

open Text

/-- The keyword of a directive. -/
def Directive.keyword : Directive → Text
  | opens opener => opener.word
  | closes closer => closer.word

/-- What a directive begins with is its keyword and at most one blank. -/
theorem Directive.IsLead.trim_eq {directive : Directive} {lead : Text}
    (h : directive.IsLead lead) : trim lead = directive.keyword := by
  cases directive with
  | closes closer =>
      obtain rfl := h
      cases closer <;> rfl
  | opens opener =>
      obtain ⟨c, hc, rfl⟩ := h
      have hGap : ∀ d ∈ [c], isBlank d = true :=
        List.forall_mem_singleton.mpr (isBlank_of_isSpaceOrTab hc)
      rw [trim_append_gap hGap]
      cases opener <;> rfl

namespace Conditional

/-! ## Searching for the pattern -/

section Searching

variable {before : Option Char} {offset : Nat} {s rest line : Text}

/-- Within a line nothing is read. -/
theorem searchFrom_within {c : Char} (hc : c ≠ '\n') (hLine : '\n' ∉ line) :
    directivePattern.recogniser.searchFrom (some c) offset (line ++ rest) =
      directivePattern.recogniser.searchFrom (line.getLast?.or (some c)) (offset + size line)
        rest := by
  induction line generalizing c offset with
  | nil => rfl
  | cons d line ih =>
      rw [List.mem_cons, not_or] at hLine
      have hNone : directivePattern.recogniser.read (some c) (d :: (line ++ rest)) = none :=
        read?_eq_none fun hStart => absurd hStart (by simp [hc])
      rw [List.cons_append, Recogniser.searchFrom_of_none hNone, ih (Ne.symm hLine.1) hLine.2,
        size_cons, Nat.add_assoc, ← List.singleton_append (l := line),
        Recogniser.getLast?_append_or (List.cons_ne_nil d [])]
      rfl

/-- At a line feed nothing is read. -/
theorem searchFrom_lineEnd (hRest : rest = [] ∨ ∃ next, rest = '\n' :: next) :
    directivePattern.recogniser.searchFrom before offset rest =
      directivePattern.recogniser.searchFrom (some '\n') (offset + 1) (nextLine rest) := by
  rcases hRest with rfl | ⟨next, rfl⟩
  · rw [Recogniser.searchFrom, show nextLine [] = [] from rfl, Recogniser.searchFrom]
  · refine Recogniser.searchFrom_of_none (read?_eq_none ?_)
    rintro - directive lead behind ⟨-, blanks, gap, hBlanks, -, hSplit⟩
    cases blanks with
    | nil => simp at hSplit
    | cons c blanks =>
        obtain ⟨rfl, _⟩ := List.cons.inj hSplit
        exact absurd (hBlanks _ List.mem_cons_self) (by decide)

/-- Behind a line without a directive a search goes on with the next line. -/
theorem searchFrom_plain (hLine : '\n' ∉ line) (hRest : rest = [] ∨ ∃ next, rest = '\n' :: next)
    (hNone : ∀ directive lead behind, ¬ IsWritten (line ++ rest) directive lead behind) :
    directivePattern.recogniser.searchFrom before offset (line ++ rest) =
      directivePattern.recogniser.searchFrom (some '\n') (offset + size line + 1)
        (nextLine rest) := by
  cases line with
  | nil => exact searchFrom_lineEnd hRest
  | cons c line =>
      rw [List.mem_cons, not_or] at hLine
      have hRead : directivePattern.recogniser.read before (c :: (line ++ rest)) = none :=
        read?_eq_none fun _ => hNone
      rw [List.cons_append, Recogniser.searchFrom_of_none hRead,
        searchFrom_within (Ne.symm hLine.1) hLine.2, searchFrom_lineEnd hRest, size_cons,
        Nat.add_assoc offset]

/-- Behind a directive line a search goes on with the line after all joined lines. -/
theorem searchFrom_directive {directive : Directive} {lead behind taken param : Text}
    (hStart : before = none ∨ before = some '\n')
    (h : IsWritten (taken ++ rest) directive lead behind)
    (hLogical : logicalLine (behind.dropWhile isSpaceOrTab) = (param, rest)) :
    directivePattern.recogniser.searchFrom before offset (taken ++ rest) =
      (groupsOf lead param, ⟨offset, offset + size taken⟩) ::
        directivePattern.recogniser.searchFrom (some '\n') (offset + size taken + 1)
          (nextLine rest) := by
  have hRead : directivePattern.recogniser.read before (taken ++ rest) =
      some (groupsOf lead param, rest) := by
    have hBoth := read?_of_isWritten hStart h
    rwa [hLogical] at hBoth
  have hRest : rest = [] ∨ ∃ next, rest = '\n' :: next := by
    have hEnd := logicalLine_snd (behind.dropWhile isSpaceOrTab)
    rwa [hLogical] at hEnd
  rw [Recogniser.searchFrom_of_read hRead, searchFrom_lineEnd hRest]

end Searching

/-! ## Matches -/

/-- A directive line as it is written. -/
structure KeywordLine where
  keyword : Text
  /-- The text after the keyword and the blanks behind it, over all joined lines. -/
  param : Text
  span : Span
deriving DecidableEq, Repr

/-- The text of a group, empty if there is no such group. -/
def groupText (name : String) (groups : List (Text × Text)) : Text :=
  (groups.lookup name.toList).getD []

/-- A match of the pattern, with the blank behind an opening keyword left out. -/
def KeywordLine.ofMatch (found : List (Text × Text) × Span) : KeywordLine :=
  ⟨trim (groupText "directive" found.1), groupText "param" found.1, found.2⟩

/-- The successive matches of the directive pattern in a text. -/
def patternMatches (s : Text) : List KeywordLine :=
  (directivePattern.recogniser.search s).map .ofMatch

theorem ofMatch_groupsOf {directive : Directive} {lead : Text} (h : directive.IsLead lead)
    (param : Text) (span : Span) :
    KeywordLine.ofMatch (groupsOf lead param, span) = ⟨directive.keyword, param, span⟩ := by
  rw [KeywordLine.ofMatch, ← h.trim_eq]
  rfl

/-- A directive line with the word of its directive. -/
def keywordLine (line : DirectiveLine) : KeywordLine :=
  ⟨line.directive.keyword, line.condition, line.span⟩

/-- A directive line without blanks at the end of its parameter. -/
def KeywordLine.trimmed (line : KeywordLine) : KeywordLine :=
  { line with param := trimEnd line.param }

/-- The directive lines of a text are the matches of the pattern, line by line. -/
theorem map_linesFrom {before : Option Char} (hStart : before = none ∨ before = some '\n')
    (offset : Nat) (s : Text) :
    (linesFrom offset s).map keywordLine =
      (directivePattern.recogniser.searchFrom before offset s).map fun found =>
        (KeywordLine.ofMatch found).trimmed := by
  generalize hLength : s.length = n
  induction n using Nat.strongRecOn generalizing before offset s with
  | _ n ih =>
      have hBehind : ∀ offset taken rest, s = taken ++ rest →
          (rest = [] ∨ ∃ next, rest = '\n' :: next) →
          (linesFrom offset (nextLine rest)).map keywordLine =
            (directivePattern.recogniser.searchFrom (some '\n') offset (nextLine rest)).map
              fun found => (KeywordLine.ofMatch found).trimmed := by
        rintro offset taken _ rfl (rfl | ⟨next, rfl⟩)
        · rw [show nextLine [] = [] from rfl, linesFrom, Recogniser.searchFrom]
          rfl
        · refine ih next.length ?_ (.inr rfl) offset next rfl
          rw [List.length_append, List.length_cons] at hLength
          omega
      rw [linesFrom_eq]
      cases hRead : lineAt? offset s with
      | none =>
          obtain ⟨line, rest, rfl, hLine, hRest⟩ := exists_line s
          obtain ⟨hTaken, hDropped⟩ := span_line hLine hRest
          have hNone : ∀ directive lead behind, ¬ IsWritten (line ++ rest) directive lead behind := by
            intro directive lead behind hWritten
            rw [lineAt?_of_isWritten offset hWritten] at hRead
            cases hRead
          rw [readLine, hRead, searchFrom_plain hLine hRest hNone, hTaken, ← nextLine_dropWhile,
            hDropped]
          exact hBehind _ line rest rfl hRest
      | some found =>
          obtain ⟨lead, behind, hWritten⟩ := exists_isWritten hRead
          have hLine := lineAt?_of_isWritten offset hWritten
          obtain ⟨taken, hTaken⟩ := lineAt?_suffix hLine
          have hRest := logicalLine_snd (behind.dropWhile isSpaceOrTab)
          generalize hLogical : logicalLine (behind.dropWhile isSpaceOrTab) = logical at hLine hTaken hRest
          obtain ⟨param, rest⟩ := logical
          have hSize : offset + (size s - size rest) = offset + size taken := by
            rw [← hTaken, size_append, Nat.add_sub_cancel]
          rw [hSize] at hLine
          rw [← hTaken] at hWritten
          rw [readLine, hLine, ← hTaken, searchFrom_directive hStart hWritten hLogical,
            List.map_append, List.map_cons, hBehind _ taken rest hTaken.symm hRest,
            ofMatch_groupsOf hWritten.isLead]
          rfl

/-- A match has the keyword of a directive. -/
theorem exists_directive_of_mem_matches {s : Text} {found : KeywordLine}
    (h : found ∈ patternMatches s) : ∃ directive : Directive, found.keyword = directive.keyword := by
  obtain ⟨own, hOwn, rfl⟩ := List.mem_map.mp h
  have hTrimmed : (KeywordLine.ofMatch own).trimmed ∈ (directiveLines s).map keywordLine := by
    rw [directiveLines, map_linesFrom (.inl rfl) 0 s]
    exact List.mem_map_of_mem hOwn
  obtain ⟨line, _, hLine⟩ := List.mem_map.mp hTrimmed
  exact ⟨line.directive, (congrArg KeywordLine.keyword hLine).symm⟩

/-! ## The line reader -/

/-- Whether a line starts a directive with a keyword, and with a parameter on this line. -/
def Starts (line keyword param : Text) : Prop :=
  ∃ blanks gap space, (∀ c ∈ blanks ++ gap ++ space, c = ' ' ∨ c = '\t') ∧
    line = blanks ++ '#' :: (gap ++ (keyword ++ (space ++ param))) ∧
    (∀ c ∈ param.head?, c ≠ ' ' ∧ c ≠ '\t') ∧
    (keyword ∈ ["if".toList, "ifdef".toList, "ifndef".toList] ∧ space ≠ [] ∨
      keyword ∈ ["else".toList, "endif".toList])

/-- The lines taken behind a line, as long as the last one joins the next, and those left. -/
def joinedTo : Text → List Text → List Text × List Text
  | _, [] => ([], [])
  | line, next :: lines =>
      if Continues line then (next :: (joinedTo next lines).1, (joinedTo next lines).2)
      else ([], next :: lines)

/-- Reading directives off lines, of which the first one starts at an offset. -/
inductive ReadsLines : Nat → List Text → List KeywordLine → Prop
  | done (offset : Nat) : ReadsLines offset [] []
  | plain {offset : Nat} {line : Text} {lines : List Text} {found : List KeywordLine} :
      (∀ keyword param, ¬ Starts line keyword param) →
      ReadsLines (offset + size line + 1) lines found →
      ReadsLines offset (line :: lines) found
  | directive {offset : Nat} {line keyword param : Text} {lines more left : List Text}
      {found : List KeywordLine} :
      Starts line keyword param → joinedTo line lines = (more, left) →
      ReadsLines (offset + size (join ['\n'] (line :: more)) + 1) left found →
      ReadsLines offset (line :: lines)
        (⟨keyword, join ['\n'] (param :: more),
          ⟨offset, offset + size (join ['\n'] (line :: more))⟩⟩ :: found)

/-- The first line of a text ends where the next one begins. -/
theorem join_cons (line : Text) (lines : List Text) :
    join ['\n'] (line :: lines) = line ++ lines.flatMap ('\n' :: ·) := by
  induction lines generalizing line with
  | nil => simp [join]
  | cons next lines ih => rw [join_cons_cons, ih, List.flatMap_cons, List.cons_append]

theorem nextLine_flatMap (lines : List Text) :
    nextLine (lines.flatMap ('\n' :: ·)) = join ['\n'] lines := by
  cases lines with
  | nil => rfl
  | cons line lines =>
      rw [join_cons, List.flatMap_cons, nextLine, List.cons_append,
        List.dropWhile_cons_of_neg (by simp), List.drop_one, List.tail_cons]

theorem flatMap_eq (lines : List Text) :
    lines.flatMap ('\n' :: ·) = [] ∨ ∃ next, lines.flatMap ('\n' :: ·) = '\n' :: next := by
  cases lines with
  | nil => exact .inl rfl
  | cons line lines => exact .inr ⟨_, List.flatMap_cons⟩

theorem joinedTo_append (line : Text) (lines : List Text) :
    (joinedTo line lines).1 ++ (joinedTo line lines).2 = lines := by
  induction lines generalizing line with
  | nil => rfl
  | cons next lines ih =>
      rw [joinedTo]
      split
      · rw [List.cons_append, ih]
      · rfl

/-- What is taken behind a line depends only on whether the line joins the next one. -/
theorem joinedTo_congr {line other : Text} (h : Continues line ↔ Continues other)
    (lines : List Text) : joinedTo line lines = joinedTo other lines := by
  cases lines with
  | nil => rfl
  | cons next lines => rw [joinedTo, joinedTo, if_congr h rfl rfl]

/-- The lines joined to the first one make up its logical line. -/
theorem logicalLine_flatMap {line : Text} {lines : List Text} (hLine : '\n' ∉ line)
    (hLines : ∀ next ∈ lines, '\n' ∉ next) :
    logicalLine (line ++ lines.flatMap ('\n' :: ·)) =
      (join ['\n'] (line :: (joinedTo line lines).1),
        (joinedTo line lines).2.flatMap ('\n' :: ·)) := by
  induction lines generalizing line with
  | nil =>
      rw [List.flatMap_nil, List.append_nil, isJoined_of_not_mem hLine]
      rfl
  | cons next lines ih =>
      obtain ⟨hNext, hLines⟩ := List.forall_mem_cons.mp hLines
      have hOwn := isJoined_of_not_mem hLine
      rw [List.flatMap_cons, List.cons_append, joinedTo]
      split
      · rename_i hJoins
        rw [logicalLine_append_of_continues hOwn hJoins, ih hNext hLines, join_cons_cons]
      · rename_i hEnd
        rw [hOwn.append_newline hEnd, List.flatMap_cons]
        rfl

/-! ## A line that starts a directive -/

/-- A keyword and the blanks behind it are what a directive begins with, and blanks. -/
theorem exists_isLead {keyword space : Text}
    (h : keyword ∈ ["if".toList, "ifdef".toList, "ifndef".toList] ∧ space ≠ [] ∨
      keyword ∈ ["else".toList, "endif".toList]) (hSpace : ∀ c ∈ space, isSpaceOrTab c = true) :
    ∃ directive lead gap, Directive.IsLead directive lead ∧ keyword ++ space = lead ++ gap ∧
      directive.keyword = keyword ∧ ∀ c ∈ gap, isSpaceOrTab c = true := by
  rcases h with ⟨hOpens, hSome⟩ | hCloses
  · obtain ⟨opener, rfl⟩ : ∃ opener : Opener, keyword = opener.word := by
      simp only [List.mem_cons, List.not_mem_nil, or_false] at hOpens
      rcases hOpens with rfl | rfl | rfl
      · exact ⟨.expression, rfl⟩
      · exact ⟨.defined, rfl⟩
      · exact ⟨.undefined, rfl⟩
    obtain ⟨c, gap, rfl⟩ := List.exists_cons_of_ne_nil hSome
    obtain ⟨hc, hGap⟩ := List.forall_mem_cons.mp hSpace
    exact ⟨.opens opener, opener.word ++ [c], gap, ⟨c, hc, rfl⟩, by simp, rfl, hGap⟩
  · obtain ⟨closer, rfl⟩ : ∃ closer : Closer, keyword = closer.word := by
      simp only [List.mem_cons, List.not_mem_nil, or_false] at hCloses
      rcases hCloses with rfl | rfl
      · exact ⟨.alternative, rfl⟩
      · exact ⟨.final, rfl⟩
    exact ⟨.closes closer, closer.word, space, rfl, rfl, rfl, hSpace⟩

/-- What a directive begins with is its keyword, and a blank where the keyword needs one. -/
theorem exists_space_of_isLead {directive : Directive} {lead : Text} (h : directive.IsLead lead) :
    ∃ space, lead = directive.keyword ++ space ∧ (∀ c ∈ space, isSpaceOrTab c = true) ∧
      (directive.keyword ∈ ["if".toList, "ifdef".toList, "ifndef".toList] ∧ space ≠ [] ∨
        directive.keyword ∈ ["else".toList, "endif".toList]) := by
  cases directive with
  | opens opener =>
      obtain ⟨c, hc, rfl⟩ := h
      refine ⟨[c], rfl, List.forall_mem_singleton.mpr hc, .inl ⟨?_, List.cons_ne_nil c []⟩⟩
      cases opener <;> decide
  | closes closer =>
      obtain rfl := h
      refine ⟨[], (List.append_nil _).symm, fun c hc => absurd hc List.not_mem_nil, .inr ?_⟩
      cases closer <;> decide

/-- A line that starts a directive has it written at its front, whatever lines follow. -/
theorem Starts.isWritten {line keyword param rest : Text} (h : Starts line keyword param)
    (hRest : rest = [] ∨ ∃ next, rest = '\n' :: next) :
    ∃ directive lead behind, IsWritten (line ++ rest) directive lead behind ∧
      directive.keyword = keyword ∧ behind.dropWhile isSpaceOrTab = param ++ rest := by
  obtain ⟨blanks, gap, space, hAll, rfl, hHead, hKeyword⟩ := h
  have hBlank : ∀ c ∈ blanks ++ gap ++ space, isSpaceOrTab c = true :=
    fun c hc => isSpaceOrTab_iff.mpr (hAll c hc)
  obtain ⟨directive, lead, tail, hLead, hSplit, hWord, hTail⟩ :=
    exists_isLead hKeyword fun c hc => hBlank c (List.mem_append_right _ hc)
  refine ⟨directive, lead, tail ++ (param ++ rest), ⟨hLead, blanks, gap,
    fun c hc => hBlank c (by simp [hc]), fun c hc => hBlank c (by simp [hc]), ?_⟩, hWord, ?_⟩
  · have hFront : keyword ++ (space ++ (param ++ rest)) = lead ++ (tail ++ (param ++ rest)) := by
      rw [← List.append_assoc, hSplit, List.append_assoc]
    simp only [List.append_assoc, List.cons_append, hFront]
  · rw [List.dropWhile_append_of_pos hTail]
    cases param with
    | nil => rcases hRest with rfl | ⟨next, rfl⟩ <;> rfl
    | cons c param =>
        have hc := hHead c rfl
        exact List.dropWhile_cons_of_neg (by simp [isSpaceOrTab, hc])

/-- What stands before all line feeds of a text is the front of its first line. -/
theorem exists_of_front {line rest front behind : Text} (hFront : '\n' ∉ front)
    (hRest : rest = [] ∨ ∃ next, rest = '\n' :: next) (h : line ++ rest = front ++ behind) :
    ∃ tail, line = front ++ tail := by
  rcases List.append_eq_append_iff.mp h with ⟨middle, rfl, hMiddle⟩ | ⟨tail, hLine, _⟩
  · cases middle with
    | nil => exact ⟨[], by simp⟩
    | cons c middle =>
        rcases hRest with rfl | ⟨next, rfl⟩
        · cases hMiddle
        · obtain ⟨rfl, _⟩ := List.cons.inj hMiddle
          exact absurd (List.mem_append_right line List.mem_cons_self) hFront
  · exact ⟨tail, hLine⟩

/-- A line at whose front a directive is written starts it. -/
theorem IsWritten.exists_starts {line rest lead behind : Text} {directive : Directive}
    (hRest : rest = [] ∨ ∃ next, rest = '\n' :: next)
    (h : IsWritten (line ++ rest) directive lead behind) :
    ∃ keyword param, Starts line keyword param := by
  obtain ⟨hLead, blanks, gap, hBlanks, hGap, hSplit⟩ := h
  have hNoFeed : ∀ {blanks : Text}, (∀ c ∈ blanks, isSpaceOrTab c = true) → '\n' ∉ blanks :=
    fun h hFeed => absurd (h _ hFeed) (by decide)
  have hFront : '\n' ∉ blanks ++ '#' :: (gap ++ lead) := by
    simp [hNoFeed hBlanks, hNoFeed hGap, hLead.head.2]
  have hSame : line ++ rest = (blanks ++ '#' :: (gap ++ lead)) ++ behind := by simpa using hSplit
  obtain ⟨tail, rfl⟩ := exists_of_front hFront hRest hSame
  obtain ⟨space, rfl, hSpace, hKeyword⟩ := exists_space_of_isLead hLead
  refine ⟨directive.keyword, tail.dropWhile isSpaceOrTab, blanks, gap,
    space ++ tail.takeWhile isSpaceOrTab, ?_, ?_, ?_, ?_⟩
  · intro c hc
    rw [← isSpaceOrTab_iff]
    simp only [List.mem_append] at hc
    rcases hc with (hc | hc) | hc | hc
    · exact hBlanks c hc
    · exact hGap c hc
    · exact hSpace c hc
    · exact List.all_eq_true.mp List.all_takeWhile c hc
  · simp [List.takeWhile_append_dropWhile]
  · intro c hc
    have hNot := List.head?_dropWhile_not isSpaceOrTab tail
    rw [Option.mem_def.mp hc] at hNot
    simpa [isSpaceOrTab] using hNot
  · exact hKeyword.imp (fun h => ⟨h.1, by simp [h.2]⟩) id

/-- The parameter joins the next line if the line does. -/
theorem Starts.continues_iff {line keyword param : Text} (h : Starts line keyword param) :
    Continues line ↔ Continues param := by
  obtain ⟨blanks, gap, space, hAll, rfl, _, hKeyword⟩ := h
  have hWord : ∀ c ∈ keyword, c ≠ '\\' ∧ c ≠ '\r' := by
    apply plain_of_all
    rcases hKeyword with ⟨hOpens, _⟩ | hCloses
    · simp only [List.mem_cons, List.not_mem_nil, or_false] at hOpens
      rcases hOpens with rfl | rfl | rfl <;> decide
    · simp only [List.mem_cons, List.not_mem_nil, or_false] at hCloses
      rcases hCloses with rfl | rfl <;> decide
  have hSplit : blanks ++ '#' :: (gap ++ (keyword ++ (space ++ param))) =
      (blanks ++ '#' :: (gap ++ (keyword ++ space))) ++ param := by simp
  rw [hSplit]
  refine ⟨fun hJoins => hJoins.of_plain ?_, fun hJoins => hJoins.of_suffix (List.suffix_append _ _)⟩
  intro c hc
  have hBlank : ∀ c, c = ' ' ∨ c = '\t' → c ≠ '\\' ∧ c ≠ '\r' := by
    rintro c (rfl | rfl) <;> decide
  simp only [List.mem_append, List.mem_cons] at hc hAll
  rcases hc with hc | rfl | hc | hc | hc
  · exact hBlank c (hAll c (.inl (.inl hc)))
  · decide
  · exact hBlank c (hAll c (.inl (.inr hc)))
  · exact hWord c hc
  · exact hBlank c (hAll c (.inr hc))

/-! ## The two readings -/

/-- What the line reader finds are the matches of the pattern. -/
theorem ReadsLines.eq_matches {offset : Nat} {lines : List Text} {found : List KeywordLine}
    (h : ReadsLines offset lines found) (hLines : ∀ line ∈ lines, '\n' ∉ line)
    {before : Option Char} (hStart : before = none ∨ before = some '\n') :
    found = (directivePattern.recogniser.searchFrom before offset (join ['\n'] lines)).map
      .ofMatch := by
  induction h generalizing before with
  | done offset =>
      rw [join, Recogniser.searchFrom]
      rfl
  | @plain offset line lines found hNone _ ih =>
      obtain ⟨hLine, hRest⟩ := List.forall_mem_cons.mp hLines
      have hWritten : ∀ directive lead behind,
          ¬ IsWritten (line ++ lines.flatMap ('\n' :: ·)) directive lead behind := by
        intro directive lead behind hWritten
        obtain ⟨keyword, param, hStarts⟩ := hWritten.exists_starts (flatMap_eq lines)
        exact hNone keyword param hStarts
      rw [join_cons, searchFrom_plain hLine (flatMap_eq lines) hWritten, nextLine_flatMap]
      exact ih hRest (.inr rfl)
  | @directive offset line keyword param lines more left found hStarts hJoined _ ih =>
      obtain ⟨hLine, hRest⟩ := List.forall_mem_cons.mp hLines
      have hLeft : more ++ left = lines := by
        have hBoth := joinedTo_append line lines
        rwa [hJoined] at hBoth
      have hParam : '\n' ∉ param := by
        obtain ⟨_, _, _, _, rfl, _⟩ := hStarts
        simp only [List.mem_append, List.mem_cons, not_or] at hLine
        exact hLine.2.2.2.2.2
      obtain ⟨directive, lead, behind, hWritten, rfl, hBehind⟩ :=
        hStarts.isWritten (flatMap_eq lines)
      have hLogical : logicalLine (behind.dropWhile isSpaceOrTab) =
          (join ['\n'] (param :: more), left.flatMap ('\n' :: ·)) := by
        rw [hBehind, logicalLine_flatMap hParam hRest,
          joinedTo_congr hStarts.continues_iff.symm lines, hJoined]
      have hText : line ++ lines.flatMap ('\n' :: ·) =
          join ['\n'] (line :: more) ++ left.flatMap ('\n' :: ·) := by
        rw [join_cons, List.append_assoc, ← List.flatMap_append, hLeft]
      rw [hText] at hWritten
      rw [join_cons line lines, hText, searchFrom_directive hStart hWritten hLogical, nextLine_flatMap,
        List.map_cons, ofMatch_groupsOf hWritten.isLead]
      exact congrArg _ (ih (fun next hNext => hRest next (hLeft ▸ List.mem_append_right more hNext))
        (.inr rfl))

/-- The line reader gets through all lines. -/
theorem exists_readsLines (offset : Nat) (lines : List Text) :
    ∃ found, ReadsLines offset lines found := by
  generalize hLength : lines.length = n
  induction n using Nat.strongRecOn generalizing offset lines with
  | _ n ih =>
      cases lines with
      | nil => exact ⟨[], .done offset⟩
      | cons line lines =>
          rw [List.length_cons] at hLength
          by_cases hStarts : ∃ keyword param, Starts line keyword param
          · obtain ⟨keyword, param, hStarts⟩ := hStarts
            have hLeft := congrArg List.length (joinedTo_append line lines)
            rw [List.length_append] at hLeft
            obtain ⟨found, hFound⟩ := ih (joinedTo line lines).2.length (by omega)
              (offset + size (join ['\n'] (line :: (joinedTo line lines).1)) + 1) _ rfl
            exact ⟨_, .directive hStarts rfl hFound⟩
          · obtain ⟨found, hFound⟩ :=
              ih lines.length (by omega) (offset + size line + 1) lines rfl
            exact ⟨found, .plain (fun keyword param h => hStarts ⟨keyword, param, h⟩) hFound⟩

/-- The line reader finds the matches of the pattern, and they are the directive lines. -/
theorem readsLines_iff_matches (s : Text) :
    (∀ found, ReadsLines 0 (splitOn '\n' s) found ↔ found = patternMatches s) ∧
      (directiveLines s).map keywordLine = (patternMatches s).map KeywordLine.trimmed := by
  have hLines : ∀ line ∈ splitOn '\n' s, '\n' ∉ line := fun line => not_mem_of_mem_splitOn
  have hText := join_splitOn '\n' s
  refine ⟨fun found => ⟨fun hFound => ?_, ?_⟩, ?_⟩
  · have hSame := hFound.eq_matches hLines (.inl rfl)
    rwa [hText] at hSame
  · rintro rfl
    obtain ⟨found, hFound⟩ := exists_readsLines 0 (splitOn '\n' s)
    have hSame := hFound.eq_matches hLines (.inl rfl)
    rw [hText] at hSame
    rwa [patternMatches, Recogniser.search, ← hSame]
  · rw [patternMatches, List.map_map]
    exact map_linesFrom (.inl rfl) 0 s

end Conditional

end ValueNames
