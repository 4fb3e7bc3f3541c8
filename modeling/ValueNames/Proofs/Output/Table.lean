import ValueNames.Output.Function
import ValueNames.Proofs.Enumeration.Layout
import ValueNames.Proofs.Enumeration.Stretches

/-!
# The table of an enumeration

The entries of a body are copied into a table line by line, without the blanks at the ends
of their lines. If the lines that a directive line goes on to are kept as directive lines,
the same directive lines are read in the table, between the same entries. If they are not,
the directive line of the table goes on to entries, which are lost in its condition.

## Main results

* `Writing.lineAt?_trimmed` — a directive line is read again without the blanks at the ends
  of its lines.
* `stretches_table` — the stretches of a table are those of the body.
* `body_of_stretches` — what is read off the stretches of a body.
-/

namespace ValueNames

open Text Conditional

namespace Enumeration

/-! ## Logical lines without the blanks at the ends of their lines -/

section Trimmed

variable {first : Text} {others : List Text}

/-- The lines of a text, the first without the blanks at its end and the others trimmed. -/
def trimmedJoin (first : Text) (others : List Text) : Text :=
  join ['\n'] (trimEnd first :: others.map trim)

theorem newline_not_mem_trimmed (hFeeds : ∀ line ∈ first :: others, '\n' ∉ line) :
    ∀ line ∈ trimEnd first :: others.map trim, '\n' ∉ line := by
  rw [List.forall_mem_cons] at hFeeds
  rw [List.forall_mem_cons, List.forall_mem_map]
  exact ⟨fun hMem => hFeeds.1 (mem_of_mem_trimEnd hMem),
    fun line hLine hMem => hFeeds.2 line hLine (mem_of_mem_trim hMem)⟩

/-- Lines that are joined are joined without the blanks at their ends. -/
theorem isJoined_trimmedJoin (hFeeds : ∀ line ∈ first :: others, '\n' ∉ line)
    (h : IsJoined (join ['\n'] (first :: others))) : IsJoined (trimmedJoin first others) := by
  rw [isJoined_join hFeeds] at h
  rw [trimmedJoin, isJoined_join (newline_not_mem_trimmed hFeeds)]
  cases others with
  | nil => exact fun line hLine => by cases hLine
  | cons next others =>
      rw [List.dropLast_cons_cons, List.forall_mem_cons] at h
      rw [List.map_cons, List.dropLast_cons_cons, ← List.map_cons, ← List.map_dropLast,
        List.forall_mem_cons, List.forall_mem_map]
      exact ⟨h.1.trimmed.2, fun line hLine => (h.2 line hLine).trimmed.1⟩

/-- They join nothing that follows unless the last of them ends with a backslash. -/
theorem not_continues_trimmedJoin
    (h : ∀ line ∈ (trimEnd first :: others.map trim).getLast?, line.getLast? ≠ some '\\') :
    ¬ Continues (trimmedJoin first others) := by
  intro hJoins
  obtain ⟨last, hLast, hContinues⟩ := hJoins.getLast
  have hPlain := h last hLast
  have hTrimmed : ∃ line, last = trimEnd line := by
    rcases List.mem_cons.mp (List.mem_of_getLast? hLast) with hFirst | hOther
    · exact ⟨first, hFirst⟩
    · obtain ⟨line, _, hLine⟩ := List.mem_map.mp hOther
      exact ⟨trimStart line, hLine.symm⟩
  obtain ⟨line, rfl⟩ := hTrimmed
  exact hPlain ((continues_iff_of_trimEnd_eq (trimEnd_trimEnd _)).mp hContinues)

/-- Line by line nothing but the blanks is gone. -/
theorem trimmedLines_trimmedJoin (hFeeds : ∀ line ∈ first :: others, '\n' ∉ line) :
    trimmedLines (trimmedJoin first others) = trimmedLines (join ['\n'] (first :: others)) := by
  rw [trimmedLines, trimmedJoin, splitOn_join (newline_not_mem_trimmed hFeeds) (by simp),
    trimmedLines, splitOn_join hFeeds (by simp), List.map_cons, List.map_cons, trim_trimEnd,
    List.map_map]
  exact congrArg (trim first :: ·) (List.map_congr_left fun line _ => trim_trim line)

/-- They begin as before, unless the first line is blank. -/
theorem head?_trimmedJoin (hBlank : trimEnd first ≠ []) :
    (trimmedJoin first others).head? = (join ['\n'] (first :: others)).head? := by
  have hStart : ∀ (c : Char) (s : Text) (rest : List Text),
      (join ['\n'] ((c :: s) :: rest)).head? = some c := by
    intro c s rest
    cases rest <;> rfl
  obtain ⟨tail, hTail, _⟩ := exists_gap_trimEnd first
  obtain ⟨c, kept, hKept⟩ := List.exists_cons_of_ne_nil hBlank
  rw [hKept] at hTail
  rw [trimmedJoin, hKept, hStart, hTail, List.cons_append, hStart]

/-- What stands in front of the first line does not change how the last one ends. -/
theorem last_plain {front : Text} (hBlank : trimEnd first ≠ [])
    (h : ∀ line ∈ ((front ++ trimEnd first) :: others.map trim).getLast?,
      line.getLast? ≠ some '\\') :
    ∀ line ∈ (trimEnd first :: others.map trim).getLast?, line.getLast? ≠ some '\\' := by
  intro line hLine
  cases others with
  | nil =>
      obtain rfl : trimEnd first = line := by simpa using hLine
      have hEnd : (front ++ trimEnd first).getLast? ≠ some '\\' := h _ rfl
      rwa [List.getLast?_append, List.getLast?_eq_some_getLast hBlank, Option.some_or,
        ← List.getLast?_eq_some_getLast hBlank] at hEnd
  | cons next others =>
      rw [List.map_cons, List.getLast?_cons_cons] at hLine h
      exact h line hLine

/-- Where all further lines begin with a hash sign, the last one is not blank. -/
theorem last_filled (hBlank : trimEnd first ≠ [])
    (hMarked : ∀ line ∈ others.map trim, line.head? = some '#') :
    ∀ line ∈ (trim first :: others.map trim).getLast?, line ≠ [] := by
  intro line hLine
  cases others with
  | nil =>
      obtain rfl : trim first = line := by simpa using hLine
      exact trim_ne_nil hBlank
  | cons next others =>
      rw [List.map_cons, List.getLast?_cons_cons] at hLine
      have hMark := hMarked line (List.mem_of_getLast? hLine)
      rintro rfl
      cases hMark

end Trimmed

/-! ## Directive lines without the blanks at the ends of their lines -/

/-- Whether a directive line can be copied line by line, without the blanks around its lines. -/
structure IsCopied (own : Directive) (condition : List Text) (text : Text) : Prop where
  /-- Every line that it goes on to begins with a hash sign. -/
  marked : ∀ line ∈ (trimmedLines text).tail, line.head? = some '#'
  /-- The last line does not end with a backslash before its blanks. -/
  ended : ∀ line ∈ (trimmedLines text).getLast?, line.getLast? ≠ some '\\'
  /-- An opening keyword has a condition behind it. -/
  filled : ∀ opener, own = .opens opener → condition ≠ [[]]

namespace Writing

variable (writing : Writing)

theorem join_append_cons (glue s t : Text) (rest : List Text) :
    join glue ((s ++ t) :: rest) = s ++ join glue (t :: rest) := by
  cases rest with
  | nil => rfl
  | cons next rest => simp [join]

/-- A directive line without blanks before it is read up to the line feed that ends it. -/
theorem lineAt?_pieces {space param : Text} (hSpace : ∀ c ∈ space, isSpaceOrTab c = true)
    (hJoined : IsJoined param) (hEnd : ¬ Continues param)
    (hHead : ∀ c ∈ param.head?, isSpaceOrTab c = false) (v : Text) :
    ∃ line, lineAt? 0 ('#' :: (writing.gap ++ (writing.lead ++ (space ++ param))) ++ '\n' :: v) =
        some (line, '\n' :: v) ∧
      line.directive = writing.directive ∧ line.condition = trimEnd param := by
  exact ⟨_, lineAt?_written writing.gap_blank writing.isLead hSpace hHead
    (hJoined.append_newline hEnd v), rfl, rfl⟩

/-- What stands before a blank condition ends with the keyword of a closing directive. -/
theorem trimEnd_front {closer : Closer} (hCloses : writing.directive = .closes closer)
    {first : Text} (hFirst : trimEnd first = []) :
    trimEnd (writing.front ++ first) = writing.gap ++ writing.lead := by
  have hLead : trimEnd writing.lead = writing.lead ∧ writing.lead ≠ [] := by
    have hWord := writing.isLead
    rw [hCloses] at hWord
    rw [hWord]
    cases closer <;> decide
  have hBlank : ∀ c ∈ writing.space ++ first, isBlank c = true := by
    intro c hc
    rcases List.mem_append.mp hc with hSpace | hIn
    · exact isBlank_of_isSpaceOrTab (writing.space_blank c hSpace)
    · rw [trimEnd, List.reverse_eq_nil_iff, List.dropWhile_eq_nil_iff] at hFirst
      exact hFirst c (List.mem_reverse.mpr hIn)
  have hText : writing.front ++ first =
      writing.gap ++ (writing.lead ++ (writing.space ++ first)) := by simp [front]
  have hEnd : trimEnd (writing.lead ++ (writing.space ++ first)) = writing.lead := by
    rw [trimEnd_append_gap hBlank, hLead.1]
  rw [hText, trimEnd_append_of_ne_nil (by rw [hEnd]; exact hLead.2), hEnd]

/-- A directive line with nothing behind its keyword is read without its blanks. -/
theorem lineAt?_trimmed_of_blank {first : Text} {others : List Text}
    (hParam : splitOn '\n' writing.param = first :: others) (hBlank : trimEnd first = [])
    (hFilled : ∀ opener, writing.directive = .opens opener → writing.condition ≠ [[]])
    (v : Text) :
    others = [] ∧ ∃ line,
      lineAt? 0 ('#' :: trimEnd (writing.front ++ first) ++ '\n' :: v) = some (line, '\n' :: v) ∧
        line.directive = writing.directive ∧ trimmedLines line.condition = writing.condition := by
  have hOnly : others = [] := by
    by_cases hNone : others = []
    · exact hNone
    · obtain ⟨next, others, rfl⟩ := List.exists_cons_of_ne_nil hNone
      have hJoins := isJoined_iff.mp writing.joined
      rw [hParam] at hJoins
      have hContinues := (hJoins first (by simp)).trimmed.2
      rw [hBlank] at hContinues
      exact absurd hContinues (by decide)
  have hOwn : writing.param = first := by
    have hJoin := join_splitOn '\n' writing.param
    rw [hParam, hOnly] at hJoin
    exact hJoin.symm
  have hCondition : writing.condition = [[]] := by
    rw [condition, hOwn, hBlank]
    rfl
  obtain ⟨closer, hCloses⟩ : ∃ closer, writing.directive = .closes closer := by
    cases hDirective : writing.directive with
    | closes closer => exact ⟨closer, rfl⟩
    | opens opener => exact absurd hCondition (hFilled opener hDirective)
  have hSpace : ∀ c ∈ ([] : Text), isSpaceOrTab c = true := by simp
  have hJoined : IsJoined [] := rfl
  obtain ⟨line, hRead, hSame, hNone⟩ :=
    writing.lineAt?_pieces hSpace hJoined (by decide) (by simp) v
  rw [List.append_nil, List.append_nil] at hRead
  refine ⟨hOnly, line, ?_, hSame, ?_⟩
  · rw [writing.trimEnd_front hCloses hBlank]
    exact hRead
  · rw [hNone, hCondition]
    rfl

/--
A directive line is read again without the blanks at the ends of its lines, and nothing of
what follows is joined to it.
-/
theorem lineAt?_trimmed
    (hCopied : IsCopied writing.directive writing.condition writing.text) (v : Text) :
    ∃ line, lineAt? 0 (join ['\n'] (trimmedLines writing.text) ++ '\n' :: v) =
        some (line, '\n' :: v) ∧
      line.directive = writing.directive ∧ trimmedLines line.condition = writing.condition := by
  obtain ⟨hMarked, hEnded, hFilled⟩ := hCopied
  obtain ⟨first, others, hParam, hText, hTrim⟩ := writing.exists_lines
  have hLines : trimmedLines writing.text =
      ('#' :: trimEnd (writing.front ++ first)) :: others.map trim := by
    rw [trimmedLines, hText, List.map_cons, hTrim]
  rw [hLines] at hMarked hEnded ⊢
  by_cases hBlank : trimEnd first = []
  · obtain ⟨rfl, hRead⟩ := writing.lineAt?_trimmed_of_blank hParam hBlank hFilled v
    exact hRead
  · have hFront : trimEnd (writing.front ++ first) = writing.front ++ trimEnd first :=
      trimEnd_append_of_ne_nil hBlank _
    have hOwn : writing.param = join ['\n'] (first :: others) := by
      rw [← hParam, join_splitOn]
    have hFeeds : ∀ line ∈ first :: others, '\n' ∉ line := by
      intro line hLine
      rw [← hParam] at hLine
      exact not_mem_of_mem_splitOn hLine
    have hJoined : IsJoined (trimmedJoin first others) :=
      isJoined_trimmedJoin hFeeds (hOwn ▸ writing.joined)
    rw [hFront, ← List.cons_append] at hEnded
    have hEnd : ¬ Continues (trimmedJoin first others) :=
      not_continues_trimmedJoin (last_plain hBlank hEnded)
    have hSome : ∀ line ∈ (trimmedLines writing.param).getLast?, line ≠ [] := by
      rw [trimmedLines, hParam]
      exact last_filled hBlank hMarked
    have hHead : ∀ c ∈ (trimmedJoin first others).head?, isSpaceOrTab c = false := by
      rw [head?_trimmedJoin hBlank, ← hOwn]
      exact writing.head
    obtain ⟨line, hRead, hSame, hCondition⟩ :=
      writing.lineAt?_pieces writing.space_blank hJoined hEnd hHead v
    have hLinesOf : trimmedLines (trimmedJoin first others) = trimmedLines writing.param := by
      rw [trimmedLines_trimmedJoin hFeeds, ← hOwn]
    refine ⟨line, ?_, hSame, ?_⟩
    · rw [hFront, ← List.cons_append, join_append_cons, List.cons_append, ← trimmedJoin]
      rw [front, List.append_assoc, List.append_assoc]
      exact hRead
    · rw [hCondition, trimmedLines_trimEnd (by rw [hLinesOf]; exact hSome), hLinesOf, condition,
        trimmedLines_trimEnd hSome]

end Writing

/-! ## Tables -/

/-- The entries of a table, each with its line feed. -/
def tableLines (body : List BodyLine) : Text := body.flatMap fun entry => entry.tableEntry ++ ['\n']

theorem tableLines_cons (entry : BodyLine) (body : List BodyLine) :
    tableLines (entry :: body) = entry.tableEntry ++ '\n' :: tableLines body := by
  rw [tableLines, List.flatMap_cons, List.append_assoc]
  rfl

theorem tableLines_append (front back : List BodyLine) :
    tableLines (front ++ back) = tableLines front ++ tableLines back := List.flatMap_append

/-- The entries of a table stand on lines of their own. -/
theorem join_append_newline (body : List BodyLine) (v : Text) :
    join ['\n'] (body.map BodyLine.tableEntry) ++ '\n' :: v =
      if body = [] then '\n' :: v else tableLines body ++ v := by
  induction body with
  | nil => rfl
  | cons entry body ih =>
      rw [if_neg (List.cons_ne_nil entry body), tableLines_cons]
      cases body with
      | nil => simp [join, tableLines]
      | cons next body =>
          rw [if_neg (List.cons_ne_nil next body), List.map_cons] at ih
          rw [List.map_cons, List.map_cons, join_cons_cons, List.append_assoc, List.append_assoc,
            List.cons_append, List.cons_append, ih]

/-- The stretches of a table for a stretch of the body. -/
def Stretch.inTable : Stretch → List Stretch
  | .plain line => (entriesOfLine line).map fun entry => .plain entry.tableEntry
  | .directive own condition text => [.directive own condition (join ['\n'] (trimmedLines text))]

/-- Whether the entries of a stretch are read in a table as in the body. -/
def Stretch.IsCopied : Stretch → Prop
  | .plain line => (trim line).head? ≠ some '#'
  | .directive own condition text => Enumeration.IsCopied own condition text

/-- The entry of an enumerator begins with a bracket behind spaces. -/
theorem exists_tableEntry_member (name : Text) :
    ∃ middle last, (BodyLine.member name).tableEntry =
        "        ".toList ++ '[' :: (name ++ (middle ++ (name ++ last))) ∧
      '\n' ∉ middle ∧ '\n' ∉ last := by
  have hFront : "        [".toList = "        ".toList ++ ['['] := by decide
  refine ⟨"] = \"".toList, "\",".toList, ?_, by decide, by decide⟩
  unfold BodyLine.tableEntry
  rw [hFront]
  generalize "        ".toList = blanks
  generalize "] = \"".toList = middle
  generalize "\",".toList = last
  simp only [List.append_assoc, List.cons_append, List.nil_append]

/-- The entry of an enumerator is a line that is no directive line. -/
theorem stretches_member {name : Text} (h : ∀ c ∈ name, isBlank c = false) (v : Text) :
    stretches ((BodyLine.member name).tableEntry ++ '\n' :: v) =
      .plain (BodyLine.member name).tableEntry :: stretches v := by
  have hName : '\n' ∉ name := fun hMem => absurd (h _ hMem) (by decide)
  have hBlanks : '\n' ∉ "        ".toList := by decide
  have hSpaces : ∀ c ∈ "        ".toList, isSpaceOrTab c = true :=
    List.all_eq_true.mp (by decide)
  obtain ⟨middle, last, hEntry, hMiddle, hLast⟩ := exists_tableEntry_member name
  rw [hEntry]
  generalize "        ".toList = blanks at hBlanks hSpaces
  have hLine : '\n' ∉ blanks ++ '[' :: (name ++ (middle ++ (name ++ last))) := by
    simp [hBlanks, hName, hMiddle, hLast]
  refine stretches_plain hLine ?_
  rw [List.append_assoc, List.cons_append]
  exact lineAt?_eq_none hSpaces (by decide) (by decide) _

theorem stretches_members {members : List BodyLine}
    (h : ∀ entry ∈ members, ∃ name, entry = .member name ∧ ∀ c ∈ name, isBlank c = false)
    (v : Text) :
    stretches (tableLines members ++ v) =
      (members.map fun entry => .plain entry.tableEntry) ++ stretches v := by
  induction members with
  | nil => rfl
  | cons entry members ih =>
      rw [List.forall_mem_cons] at h
      obtain ⟨⟨name, rfl, hName⟩, hRest⟩ := h
      rw [tableLines_cons, List.append_assoc, List.cons_append, stretches_member hName, ih hRest,
        List.map_cons]
      rfl

/-- The lines of a directive line are the entries of the table for it. -/
theorem tableLines_directives (lines : List Text) (hSome : lines ≠ []) (v : Text) :
    tableLines (lines.map .directive) ++ v = join ['\n'] lines ++ '\n' :: v := by
  have hEntries : (lines.map BodyLine.directive).map BodyLine.tableEntry = lines := by
    rw [List.map_map]
    exact List.map_id lines
  have hLines := join_append_newline (lines.map .directive) v
  rw [hEntries, if_neg (by simpa using hSome)] at hLines
  exact hLines.symm

/-- A stretch of the body is read in a table as in the body, and what follows on its own. -/
theorem stretches_inTable {stretch : Stretch} (hRead : stretch.IsRead) (h : stretch.IsCopied)
    (v : Text) :
    stretches (tableLines (entries stretch.text) ++ v) = stretch.inTable ++ stretches v := by
  cases stretch with
  | plain line =>
      have hEntries : entries line = entriesOfLine line := entries_of_not_mem hRead
      have hMembers : ∀ entry ∈ entriesOfLine line,
          ∃ name, entry = .member name ∧ ∀ c ∈ name, isBlank c = false :=
        fun entry hEntry => exists_member_of_mem_entriesOfLine h hEntry
      rw [Stretch.text, hEntries, stretches_members hMembers, Stretch.inTable]
  | directive own condition text =>
      have hCopied : Enumeration.IsCopied own condition text := h
      have hEntries : entries text = (trimmedLines text).map .directive :=
        (entries_eq_directives_iff hRead).mpr hCopied.marked
      have hSome : trimmedLines text ≠ [] := by
        rw [trimmedLines]
        exact fun hNone => splitOn_ne_nil '\n' text (List.map_eq_nil_iff.mp hNone)
      obtain ⟨writing, rfl, rfl, rfl⟩ := exists_writing hRead
      obtain ⟨line, hLine, hSame, hCondition⟩ := writing.lineAt?_trimmed hCopied v
      rw [Stretch.text, hEntries, tableLines_directives _ hSome, stretches_directive hLine, hSame,
        hCondition, Stretch.inTable]
      rfl

theorem stretches_tableLines {body : List Stretch} (hRead : ∀ stretch ∈ body, stretch.IsRead)
    (h : ∀ stretch ∈ body, stretch.IsCopied) (v : Text) :
    stretches (tableLines (body.flatMap fun stretch => entries stretch.text) ++ v) =
      body.flatMap Stretch.inTable ++ stretches v := by
  induction body with
  | nil => rfl
  | cons stretch body ih =>
      rw [List.forall_mem_cons] at hRead h
      rw [List.flatMap_cons, tableLines_append, List.append_assoc, stretches_inTable hRead.1 h.1,
        ih hRead.2 h.2, List.flatMap_cons, List.append_assoc]

/-- The table of an enumeration. -/
def table (enumeration : Enumeration) : Text :=
  join ['\n'] (enumeration.body.map BodyLine.tableEntry)

/-- The table stands in the function between two line feeds. -/
theorem exists_around_table (enumeration : Enumeration) (sentinel : Text) :
    ∃ front behind, enumeration.function sentinel =
      front ++ '\n' :: (enumeration.table ++ '\n' :: behind) := by
  obtain ⟨opens, hOpens⟩ : ∃ opens, " in )\n\x7b\n    const char * in_to_str[]=\n    \x7b\n".toList =
      opens ++ ['\n'] := ⟨" in )\n\x7b\n    const char * in_to_str[]=\n    \x7b".toList, by decide⟩
  obtain ⟨closes, hCloses⟩ : ∃ closes,
      "\n    \x7d;\n\n    if( in > ( sizeof( in_to_str )/sizeof( in_to_str[0]) - 1 ) ||\n".toList =
        '\n' :: closes := ⟨_, rfl⟩
  unfold function
  rw [hOpens, hCloses]
  generalize "const char *".toList = keyword
  generalize "_str( ".toList = middle
  generalize "        in_to_str[ in ] == NULL )\n    \x7b\n        return \"".toList = test
  generalize "\";\n    \x7d\n    return in_to_str[ in ];\n\x7d\n".toList = last
  refine ⟨keyword ++ enumeration.name ++ middle ++ enumeration.typeName ++ opens,
    closes ++ test ++ sentinel ++ last, ?_⟩
  simp only [table, List.append_assoc, List.cons_append, List.nil_append]

/--
The stretches of a table are those of the body if all of them can be copied: the same
directive lines are read, with the same conditions, between the same entries.
-/
theorem stretches_table {body : Text} {enumeration : Enumeration}
    (hBody : enumeration.body = entries body) (h : ∀ stretch ∈ stretches body, stretch.IsCopied)
    (v : Text) :
    stretches (enumeration.table ++ '\n' :: v) =
      (if enumeration.body = [] then [.plain []] else (stretches body).flatMap Stretch.inTable) ++
        stretches v := by
  have hRead : ∀ stretch ∈ stretches body, stretch.IsRead :=
    fun stretch hStretch => isRead_of_mem_stretches hStretch
  rw [table, join_append_newline]
  by_cases hNone : enumeration.body = []
  · rw [if_pos hNone, if_pos hNone]
    exact stretches_plain List.not_mem_nil rfl
  · rw [if_neg hNone, if_neg hNone, hBody, entries_eq_flatMap_stretches]
    exact stretches_tableLines hRead h v

/--
An enumeration is made of every body that is not blank, if it has a tag or a typedef name. Its
directive lines are those of the stretches of the body, and its entries are those of the
stretches. The first line of each directive line is kept, but all of its lines are kept, and
nothing of it is taken for an enumerator, exactly if every line it goes on to begins with a
hash sign. If that is so, no directive line ends with a backslash and blanks, and no opening
one is without a condition, the table has the same directive lines with the same conditions
between the same entries.
-/
theorem body_of_stretches (tag body typedefName : Text) (span : Span)
    (hNamed : ¬ (tag = [] ∧ typedefName = [])) (hBody : allBlank body = false) :
    (directiveLines body).map (partsIn body) = (stretches body).filterMap Stretch.parts? ∧
      (∀ own condition text, .directive own condition text ∈ stretches body →
        (∃ first others, trimmedLines text = first :: others ∧
          (entries text).head? = some (.directive first)) ∧
        (entries text = (trimmedLines text).map .directive ↔
          ∀ line ∈ (trimmedLines text).tail, line.head? = some '#')) ∧
      ∃ enumeration, ofParts tag body typedefName span = .ok enumeration ∧
        enumeration.body = (stretches body).flatMap (fun stretch => entries stretch.text) ∧
        ((∀ stretch ∈ stretches body, stretch.IsCopied) → ∀ sentinel, ∃ front behind,
          enumeration.function sentinel =
              front ++ '\n' :: (enumeration.table ++ '\n' :: behind) ∧
            stretches (enumeration.table ++ '\n' :: behind) =
              (if enumeration.body = [] then [.plain []]
                else (stretches body).flatMap Stretch.inTable) ++ stretches behind) := by
  obtain ⟨enumeration, hParts, hEntries⟩ := exists_ofParts span hNamed hBody
  refine ⟨directiveLines_eq body, ?_, enumeration, hParts, ?_, ?_⟩
  · intro own condition text hMem
    have hRead := isRead_of_mem_stretches hMem
    refine ⟨?_, entries_eq_directives_iff hRead⟩
    obtain ⟨first, others, hText, _, hFirst⟩ := entries_directive hRead
    exact ⟨trim first, others.map trim, by rw [trimmedLines, hText, List.map_cons],
      by rw [hFirst]; rfl⟩
  · rw [hEntries, entries_eq_flatMap_stretches]
  · intro hCopied sentinel
    obtain ⟨front, behind, hFunction⟩ := exists_around_table enumeration sentinel
    exact ⟨front, behind, hFunction, stretches_table hEntries hCopied behind⟩

/-- A body with a directive line on one line and blanks around it. -/
def guarded : Text := "A,\n  #ifdef X \r\nB,\n#endif\n".toList

theorem stretches_guarded : stretches guarded =
    [.plain "A,".toList, .directive (.opens .defined) ["X".toList] "  #ifdef X \r".toList,
      .plain "B,".toList, .directive (.closes .final) [[]] "#endif".toList] := by
  decide +kernel

/-- Its table has the directive lines without these blanks, around the same entry. -/
theorem body_of_guarded :
    ¬ ("e".toList = [] ∧ ([] : Text) = []) ∧ allBlank guarded = false ∧
      (∀ stretch ∈ stretches guarded, stretch.IsCopied) ∧
      ∃ enumeration, ofParts "e".toList guarded [] ⟨0, 30⟩ = .ok enumeration ∧
        enumeration.body = [.member "A".toList, .directive "#ifdef X".toList,
          .member "B".toList, .directive "#endif".toList] ∧
        ∃ behind, stretches (enumeration.table ++ '\n' :: behind) =
          [.plain (BodyLine.member "A".toList).tableEntry,
            .directive (.opens .defined) ["X".toList] "#ifdef X".toList,
            .plain (BodyLine.member "B".toList).tableEntry,
            .directive (.closes .final) [[]] "#endif".toList] ++ stretches behind := by
  have hNamed : ¬ ("e".toList = [] ∧ ([] : Text) = []) := by decide
  have hBody : allBlank guarded = false := by decide
  have hCopied : ∀ stretch ∈ stretches guarded, stretch.IsCopied := by
    have hOpens : IsCopied (.opens .defined) ["X".toList] "  #ifdef X \r".toList :=
      ⟨by decide +kernel, by decide +kernel, fun _ _ => by decide⟩
    have hCloses : IsCopied (.closes .final) [[]] "#endif".toList :=
      ⟨by decide +kernel, by decide +kernel, fun opener hOpener => by cases hOpener⟩
    have hPlain : ∀ line ∈ ["A,".toList, "B,".toList], (trim line).head? ≠ some '#' := by
      decide +kernel
    rw [stretches_guarded]
    simp only [List.forall_mem_cons]
    exact ⟨hPlain _ (by simp), hOpens, hPlain _ (by simp), hCloses, by simp⟩
  obtain ⟨_, _, enumeration, hParts, hEntries, hTable⟩ :=
    body_of_stretches "e".toList guarded [] ⟨0, 30⟩ hNamed hBody
  refine ⟨hNamed, hBody, hCopied, enumeration, hParts, ?_, ?_⟩
  · rw [hEntries, stretches_guarded]
    decide +kernel
  · obtain ⟨front, behind, _, hStretches⟩ := hTable hCopied []
    refine ⟨behind, ?_⟩
    have hSome : enumeration.body ≠ [] := by
      rw [hEntries, stretches_guarded]
      decide +kernel
    have hInTable : (stretches guarded).flatMap Stretch.inTable =
        [.plain (BodyLine.member "A".toList).tableEntry,
          .directive (.opens .defined) ["X".toList] "#ifdef X".toList,
          .plain (BodyLine.member "B".toList).tableEntry,
          .directive (.closes .final) [[]] "#endif".toList] := by
      rw [stretches_guarded]
      decide +kernel
    rw [hStretches, if_neg hSome, hInTable]

/-- A body with a directive line that goes over two lines. -/
def continued : Text := "A,\n#if defined(X) && \\\n    defined(Y)\nB,\n#endif\n".toList

/--
Its second line is taken for an enumerator. In the table its entry is part of the condition,
which goes on behind a backslash.
-/
theorem entries_continued :
    (directiveLines continued).map (partsIn continued) =
        [(.opens .expression, ["defined(X) && \\".toList, "defined(Y)".toList],
            some "#if defined(X) && \\\n    defined(Y)".toList),
          (.closes .final, [[]], some "#endif".toList)] ∧
      entries continued = [.member "A".toList, .directive "#if defined(X) && \\".toList,
        .member "defined(Y)".toList, .member "B".toList, .directive "#endif".toList] ∧
      stretches (tableLines (entries continued)) =
        [.plain (BodyLine.member "A".toList).tableEntry,
          .directive (.opens .expression)
            ["defined(X) && \\".toList, "[defined(Y)] = \"defined(Y)\",".toList]
            "#if defined(X) && \\\n        [defined(Y)] = \"defined(Y)\",".toList,
          .plain (BodyLine.member "B".toList).tableEntry,
          .directive (.closes .final) [[]] "#endif".toList] := by
  decide +kernel

end Enumeration

end ValueNames
