import ValueNames.Proofs.Conditional.Joined
import ValueNames.Proofs.Enumeration.Lines
import ValueNames.Proofs.Enumeration.Reading

/-!
# The stretches of a body

The conditional blocks of a source are read from its directive lines, each of which may go
over several lines of the text. The entries of a body are read line by line. So a body is
cut into stretches as the directive lines are read, and the entries of each stretch are
those of its lines: its first line is kept as a directive line, but every further line is
read as if it stood on its own.

## Main results

* `directiveLines_eq` — the directive lines of a body are those of its stretches.
* `entries_eq_flatMap_stretches` — the entries of a body are those of its stretches.
* `entries_directive` — of a directive line that goes over several lines, the first one is kept.
* `entries_eq_directives_iff` — all of them are kept if each begins with a hash sign.
-/

namespace ValueNames

open Text Conditional

namespace Conditional

/-! ## Trimmed lines -/

/-- What joins a line is not blank, so that it is left when the line is trimmed. -/
theorem Continues.trimmed {line : Text} (h : Continues line) :
    Continues (trim line) ∧ Continues (trimEnd line) := by
  have hMark : isBlank '\\' = false := by decide
  have hEnd : ∀ front gap : Text, (∀ c ∈ gap, isBlank c = true) →
      trimEnd (front ++ '\\' :: gap) = front ++ ['\\'] := by
    intro front gap hGap
    have hOwn : trimEnd ('\\' :: gap) = ['\\'] := by
      have hNone : trimEnd gap = [] := trimEnd_append_gap hGap []
      rw [trimEnd_cons_of_not_isBlank hMark, hNone]
    rw [trimEnd_append_of_ne_nil (by rw [hOwn]; exact List.cons_ne_nil _ _), hOwn]
  have hBoth : ∀ front gap : Text, (∀ c ∈ gap, isBlank c = true) →
      Continues (trim (front ++ '\\' :: gap)) ∧ Continues (trimEnd (front ++ '\\' :: gap)) := by
    intro front gap hGap
    rw [trim, trimStart_append_mark front gap hMark, hEnd _ gap hGap, hEnd front gap hGap]
    exact ⟨.inl (List.suffix_append _ _), .inl (List.suffix_append _ _)⟩
  rcases h with ⟨front, rfl⟩ | ⟨front, rfl⟩
  · exact hBoth front [] (by simp)
  · exact hBoth front ['\r'] (List.forall_mem_singleton.mpr (by decide))

end Conditional

namespace Enumeration

/-- What is read of a body at once, as directive lines are read. -/
inductive Stretch
  /-- A line that is no directive line. -/
  | plain (line : Text)
  /-- A directive line with the lines of its condition and its text. -/
  | directive (directive : Directive) (condition : List Text) (text : Text)
deriving DecidableEq, Repr

def Stretch.text : Stretch → Text
  | plain line => line
  | directive _ _ text => text

/-- The first stretch of a text, and what follows its line feed. -/
def firstStretch (s : Text) : Stretch × Text :=
  match lineAt? 0 s with
  | some (line, rest) =>
      (.directive line.directive (trimmedLines line.condition)
        (s.take (s.length - rest.length)), nextLine rest)
  | none => (.plain (s.takeWhile (· ≠ '\n')), nextLine s)

/-- What is read first is a line, or all that a directive line goes over. -/
theorem exists_firstStretch (s : Text) :
    ∃ text rest, s = text ++ rest ∧ (rest = [] ∨ ∃ next, rest = '\n' :: next) ∧
      ((lineAt? 0 s = none ∧ '\n' ∉ text ∧ firstStretch s = (.plain text, nextLine rest)) ∨
        ∃ line, lineAt? 0 s = some (line, rest) ∧ firstStretch s =
          (.directive line.directive (trimmedLines line.condition) text, nextLine rest)) := by
  cases hRead : lineAt? 0 s with
  | none =>
      have hLine : '\n' ∉ s.takeWhile (· ≠ '\n') := by
        intro hMem
        have hOwn := List.all_eq_true.mp List.all_takeWhile _ hMem
        simp at hOwn
      refine ⟨s.takeWhile (· ≠ '\n'), s.dropWhile (· ≠ '\n'),
        List.takeWhile_append_dropWhile.symm, dropWhile_newline s, .inl ⟨rfl, hLine, ?_⟩⟩
      rw [firstStretch, hRead, nextLine_dropWhile]
  | some found =>
      obtain ⟨line, rest⟩ := found
      obtain ⟨blanks, text, hText, _, hRest, _⟩ := lineAt?_eq_some hRead
      refine ⟨blanks ++ '#' :: text, rest, hText, hRest, .inr ⟨line, rfl, ?_⟩⟩
      have hTaken : s.take (s.length - rest.length) = blanks ++ '#' :: text := by
        rw [hText, List.length_append, Nat.add_sub_cancel, List.take_left]
      rw [firstStretch, hRead]
      simp only [hTaken]

theorem length_firstStretch_lt {s : Text} (h : s ≠ []) :
    (firstStretch s).2.length < s.length := by
  obtain ⟨text, rest, rfl, hRest, hFirst⟩ := exists_firstStretch s
  have hNext : (firstStretch (text ++ rest)).2 = nextLine rest := by
    rcases hFirst with ⟨_, _, hFirst⟩ | ⟨line, _, hFirst⟩
    · rw [hFirst]
    · rw [hFirst]
  rw [hNext, List.length_append]
  rcases hRest with rfl | ⟨next, rfl⟩
  · have hSome : text ≠ [] := by simpa using h
    have hPositive := List.length_pos_iff.mpr hSome
    simp only [nextLine, List.dropWhile_nil, List.drop_nil, List.length_nil]
    omega
  · have hLess := length_nextLine_lt (List.cons_ne_nil '\n' next)
    omega

/-- The stretches of a body, in order. -/
def stretches : Text → List Stretch
  | [] => []
  | c :: s => (firstStretch (c :: s)).1 :: stretches (firstStretch (c :: s)).2
termination_by s => s.length
decreasing_by exact length_firstStretch_lt (List.cons_ne_nil c s)

theorem stretches_nil : stretches [] = [] := by rw [stretches]

theorem stretches_of_ne_nil {s : Text} (h : s ≠ []) :
    stretches s = (firstStretch s).1 :: stretches (firstStretch s).2 := by
  cases s with
  | nil => exact absurd rfl h
  | cons c s => rw [stretches]

/-! ## Reading stretches -/

/-- A line that is no directive line is read up to its line feed. -/
theorem stretches_plain {line : Text} (hLine : '\n' ∉ line) {v : Text}
    (hNone : lineAt? 0 (line ++ '\n' :: v) = none) :
    stretches (line ++ '\n' :: v) = .plain line :: stretches v := by
  have hAll : ∀ c ∈ line, decide (c ≠ '\n') = true := by
    intro c hc
    exact decide_eq_true fun hEq => hLine (hEq ▸ hc)
  have hTaken : (line ++ '\n' :: v).takeWhile (· ≠ '\n') = line := by
    rw [List.takeWhile_append_of_pos hAll, List.takeWhile_cons_of_neg (by simp), List.append_nil]
  rw [stretches_of_ne_nil (by simp), firstStretch, hNone]
  simp only [hTaken, nextLine_append_newline hLine]

/-- A directive line is read up to the line feed that ends it. -/
theorem stretches_directive {text v : Text} {line : DirectiveLine}
    (hRead : lineAt? 0 (text ++ '\n' :: v) = some (line, '\n' :: v)) :
    stretches (text ++ '\n' :: v) =
      .directive line.directive (trimmedLines line.condition) text :: stretches v := by
  have hTaken : (text ++ '\n' :: v).take ((text ++ '\n' :: v).length - ('\n' :: v).length) =
      text := by
    rw [List.length_append, Nat.add_sub_cancel, List.take_left]
  have hNext : nextLine ('\n' :: v) = v := by simp [nextLine]
  rw [stretches_of_ne_nil (by simp), firstStretch, hRead]
  simp only [hTaken, hNext]

/-! ## The stretches and the directive lines -/

/-- A directive line of a source: its directive, its condition line by line, and its text. -/
def partsIn (source : Text) (line : DirectiveLine) : Directive × List Text × Option Text :=
  (line.directive, trimmedLines line.condition, slice? source line.span.start line.span.stop)

/-- The same of a stretch. -/
def Stretch.parts? : Stretch → Option (Directive × List Text × Option Text)
  | .plain _ => none
  | .directive own condition text => some (own, condition, some text)

/-- A directive line read behind some text stands behind it. -/
theorem partsIn_of_lineAt? {source front text rest : Text} {line : DirectiveLine}
    (hSource : source = front ++ (text ++ rest))
    (hRead : lineAt? 0 (text ++ rest) = some (line, rest)) :
    lineAt? (size front) (text ++ rest) = some (line.shift (size front), rest) ∧
      (line.shift (size front)).span.stop = size front + size text ∧
      partsIn source (line.shift (size front)) =
        (line.directive, trimmedLines line.condition, some text) := by
  have hAt := lineAt?_add 0 (size front) (text ++ rest)
  rw [Nat.zero_add, hRead, Option.map_some] at hAt
  obtain ⟨_, _, _, _, _, _, _, _, _, _, hSpan⟩ := lineAt?_eq_some_iff.mp hRead
  have hOwn : (line.shift (size front)).span = ⟨size front, size front + size text⟩ := by
    simp only [DirectiveLine.shift, Span.shift, hSpan, size_append, Span.mk.injEq]
    omega
  have hSlice : slice? source (size front) (size front + size text) = some text :=
    slice?_eq_some_iff.mpr ⟨front, rest, by rw [hSource, List.append_assoc], rfl, rfl⟩
  refine ⟨hAt, by rw [hOwn], ?_⟩
  rw [partsIn, hOwn]
  simp only [hSlice]
  rfl

theorem map_partsIn_linesFrom {source s front : Text} (h : source = front ++ s) :
    (linesFrom (size front) s).map (partsIn source) = (stretches s).filterMap Stretch.parts? := by
  fun_induction stretches s generalizing front with
  | case1 =>
      rw [linesFrom]
      rfl
  | case2 c s ih =>
      obtain ⟨text, rest, hText, hRest, hFirst⟩ := exists_firstStretch (c :: s)
      generalize c :: s = whole at h ih hText hFirst
      subst hText
      -- What follows is read behind the line feed, if there is one.
      have hLater : (firstStretch (text ++ rest)).2 = nextLine rest →
          (linesFrom (size front + size text + 1) (nextLine rest)).map (partsIn source) =
            (stretches (nextLine rest)).filterMap Stretch.parts? := by
        intro hNext
        rcases hRest with rfl | ⟨next, rfl⟩
        · have hNone : nextLine [] = [] := rfl
          rw [hNone, stretches_nil, linesFrom]
          rfl
        · have hSkip : nextLine ('\n' :: next) = next := by simp [nextLine]
          have hSource : source = (front ++ text ++ ['\n']) ++ next := by
            rw [h]
            simp
          have hSize : size (front ++ text ++ ['\n']) = size front + size text + 1 := by
            rw [size_append, size_append]
            rfl
          rw [hSkip] at hNext ⊢
          rw [← hSize]
          rw [hNext] at ih
          exact ih hSource
      rw [linesFrom_eq, List.map_append]
      rcases hFirst with ⟨hNone, hLine, hFirst⟩ | ⟨line, hRead, hFirst⟩
      · have hAt := lineAt?_add 0 (size front) (text ++ rest)
        rw [Nat.zero_add, hNone, Option.map_none] at hAt
        have hTaken : (text ++ rest).takeWhile (· ≠ '\n') = text := by
          have hOwn : (firstStretch (text ++ rest)).1 =
              .plain ((text ++ rest).takeWhile (· ≠ '\n')) := by rw [firstStretch, hNone]
          rw [hFirst] at hOwn
          exact (Stretch.plain.inj hOwn).symm
        have hRest := hLater (by rw [hFirst])
        rw [hFirst]
        simp only [readLine, hAt, hTaken, nextLine_append_of_not_mem hLine, hRest]
        rfl
      · obtain ⟨hAt, hStop, hParts⟩ := partsIn_of_lineAt? h hRead
        have hRest := hLater (by rw [hFirst])
        rw [hFirst]
        simp only [readLine, hAt, hStop, hRest, Option.toList_some, List.map_cons, hParts]
        rfl

/-- The directive lines of a body are those of its stretches, each with its whole text. -/
theorem directiveLines_eq (body : Text) :
    (directiveLines body).map (partsIn body) = (stretches body).filterMap Stretch.parts? := by
  have hBody : body = [] ++ body := rfl
  exact map_partsIn_linesFrom hBody

/-! ## The stretches and the entries -/

/-- The stretches of a body are all of its text, but for a line feed at its end. -/
theorem exists_join_stretches (body : Text) :
    ∃ tail, (tail = [] ∨ tail = ['\n']) ∧
      body = join ['\n'] ((stretches body).map Stretch.text) ++ tail := by
  fun_induction stretches body with
  | case1 => exact ⟨[], .inl rfl, rfl⟩
  | case2 c s ih =>
      obtain ⟨text, rest, hText, hRest, hFirst⟩ := exists_firstStretch (c :: s)
      have hOwn : (firstStretch (c :: s)).1.text = text ∧
          (firstStretch (c :: s)).2 = nextLine rest := by
        rcases hFirst with ⟨_, _, hFirst⟩ | ⟨line, _, hFirst⟩
        · rw [hFirst]
          exact ⟨rfl, rfl⟩
        · rw [hFirst]
          exact ⟨rfl, rfl⟩
      rw [hOwn.2] at ih ⊢
      rw [List.map_cons, hOwn.1, hText]
      rcases hRest with rfl | ⟨next, rfl⟩
      · have hNone : nextLine [] = [] := rfl
        rw [hNone, stretches_nil]
        exact ⟨[], .inl rfl, rfl⟩
      · have hSkip : nextLine ('\n' :: next) = next := by simp [nextLine]
        rw [hSkip] at ih ⊢
        obtain ⟨tail, hTail, hNext⟩ := ih
        by_cases hEmpty : next = []
        · rw [hEmpty, stretches_nil]
          exact ⟨['\n'], .inr rfl, rfl⟩
        · refine ⟨tail, hTail, ?_⟩
          rw [stretches_of_ne_nil hEmpty, List.map_cons] at hNext ⊢
          rw [join_cons_cons, List.append_assoc, List.cons_append, ← hNext]

theorem entries_join (texts : List Text) : entries (join ['\n'] texts) = texts.flatMap entries := by
  induction texts with
  | nil => rfl
  | cons s texts ih =>
      cases texts with
      | nil => rw [List.flatMap_singleton, join]
      | cons t texts =>
          rw [join_cons_cons, entries_append_newline, ih, ← List.flatMap_cons]

/-- The entries of a body are those of its stretches. -/
theorem entries_eq_flatMap_stretches (body : Text) :
    entries body = (stretches body).flatMap fun stretch => entries stretch.text := by
  obtain ⟨tail, hTail, hBody⟩ := exists_join_stretches body
  have hEntries : entries body = entries (join ['\n'] ((stretches body).map Stretch.text)) := by
    rcases hTail with rfl | rfl
    · rw [List.append_nil] at hBody
      rw [← hBody]
    · have hFeed := entries_append_newline (join ['\n'] ((stretches body).map Stretch.text)) []
      rw [← hBody] at hFeed
      rw [hFeed]
      exact List.append_nil _
  rw [hEntries, entries_join, List.flatMap_map]

/-! ## The lines of a directive line -/

/-- Whether a stretch is one that is read off a text. -/
def Stretch.IsRead : Stretch → Prop
  | .plain line => '\n' ∉ line
  | .directive own condition text => ∃ line rest, lineAt? 0 (text ++ rest) = some (line, rest) ∧
      line.directive = own ∧ trimmedLines line.condition = condition

theorem isRead_of_mem_stretches {body : Text} {stretch : Stretch} (h : stretch ∈ stretches body) :
    stretch.IsRead := by
  fun_induction stretches body with
  | case1 => cases h
  | case2 c s ih =>
      rcases List.mem_cons.mp h with rfl | hLater
      · obtain ⟨text, rest, hText, _, hFirst⟩ := exists_firstStretch (c :: s)
        rcases hFirst with ⟨_, hLine, hFirst⟩ | ⟨line, hRead, hFirst⟩
        · rw [hFirst]
          exact hLine
        · rw [hFirst]
          rw [hText] at hRead
          exact ⟨line, rest, hRead, rfl, rfl⟩
      · exact ih hLater

/-- The pieces of a directive line: around its mark and behind its keyword there are blanks. -/
structure Writing where
  directive : Directive
  blanks : Text
  gap : Text
  lead : Text
  space : Text
  /-- What follows, which may go over several lines. -/
  param : Text
  blanks_blank : ∀ c ∈ blanks, isSpaceOrTab c = true
  gap_blank : ∀ c ∈ gap, isSpaceOrTab c = true
  isLead : directive.IsLead lead
  space_blank : ∀ c ∈ space, isSpaceOrTab c = true
  joined : IsJoined param
  head : ∀ c ∈ param.head?, isSpaceOrTab c = false

namespace Writing

variable (writing : Writing)

/-- What stands between the mark and the condition. -/
def front : Text := writing.gap ++ (writing.lead ++ writing.space)

def text : Text := writing.blanks ++ '#' :: (writing.front ++ writing.param)

/-- The lines of the condition. -/
def condition : List Text := trimmedLines (trimEnd writing.param)

end Writing

/-- A directive line that is read has these pieces. -/
theorem exists_writing {own : Directive} {condition : List Text} {text : Text}
    (h : (Stretch.directive own condition text).IsRead) :
    ∃ writing : Writing, writing.directive = own ∧ writing.condition = condition ∧
      writing.text = text := by
  obtain ⟨line, rest, hRead, rfl, rfl⟩ := h
  obtain ⟨blanks, gap, lead, behind, hBlanks, hGap, hLead, hText, hCondition, hRest, _⟩ :=
    lineAt?_eq_some_iff.mp hRead
  generalize hWhole : behind.dropWhile isSpaceOrTab = whole at hCondition hRest
  obtain ⟨space, hBehind, hSpace⟩ : ∃ space, behind = space ++ whole ∧
      ∀ c ∈ space, isSpaceOrTab c = true := by
    refine ⟨behind.takeWhile isSpaceOrTab, ?_, List.all_eq_true.mp List.all_takeWhile⟩
    rw [← hWhole, List.takeWhile_append_dropWhile]
  have hParam := logicalLine_append whole
  have hJoined := isJoined_logicalLine whole
  rw [← hRest] at hParam
  generalize (logicalLine whole).1 = param at hCondition hParam hJoined
  have hHead : ∀ c ∈ param.head?, isSpaceOrTab c = false := by
    intro c hc
    have hNot := List.head?_dropWhile_not isSpaceOrTab behind
    have hOwn : whole.head? = some c := by
      rw [← hParam, List.head?_append, Option.mem_def.mp hc]
      rfl
    rw [hWhole, hOwn] at hNot
    simpa using hNot
  refine ⟨⟨line.directive, blanks, gap, lead, space, param, hBlanks, hGap, hLead, hSpace, hJoined,
    hHead⟩, rfl, ?_, ?_⟩
  · rw [Writing.condition, hCondition]
  · have hOwn : text ++ rest =
        blanks ++ '#' :: (gap ++ (lead ++ space) ++ param) ++ rest := by
      rw [hText, hBehind, ← hParam]
      simp
    exact (List.append_cancel_right hOwn).symm

namespace Writing

variable (writing : Writing)

/-- What stands before the condition is on one line. -/
theorem newline_not_mem : '\n' ∉ writing.blanks ++ '#' :: writing.front := by
  have hNone : ∀ s : Text, (∀ c ∈ s, isSpaceOrTab c = true) → '\n' ∉ s :=
    fun s hs hMem => absurd (hs _ hMem) (by decide)
  simp only [front, List.mem_append, List.mem_cons, not_or]
  exact ⟨hNone _ writing.blanks_blank, by decide, hNone _ writing.gap_blank,
    writing.isLead.head.2, hNone _ writing.space_blank⟩

/-- The first line begins with the mark, and the others are those of the condition. -/
theorem exists_lines :
    ∃ first others, splitOn '\n' writing.param = first :: others ∧
      splitOn '\n' writing.text = (writing.blanks ++ '#' :: (writing.front ++ first)) :: others ∧
      trim (writing.blanks ++ '#' :: (writing.front ++ first)) =
        '#' :: trimEnd (writing.front ++ first) := by
  obtain ⟨first, others, hParam⟩ := List.exists_cons_of_ne_nil (splitOn_ne_nil '\n' writing.param)
  have hBlanks : ∀ c ∈ writing.blanks, isBlank c = true :=
    fun c hc => isBlank_of_isSpaceOrTab (writing.blanks_blank c hc)
  refine ⟨first, others, hParam, ?_, ?_⟩
  · have hFront : splitOn '\n' (writing.blanks ++ '#' :: writing.front) =
        [] ++ [writing.blanks ++ '#' :: writing.front] := splitOn_of_not_mem writing.newline_not_mem
    have hBoth := splitOn_append hFront hParam
    rw [List.nil_append, List.append_assoc, List.append_assoc, List.cons_append] at hBoth
    exact hBoth
  · rw [trim_gap_append hBlanks, trim, trimStart, List.dropWhile_cons_of_neg (by decide),
      trimEnd_cons_of_not_isBlank (by decide)]

end Writing

/-! ## The entries of a directive line -/

/-- Of a directive line the first line is kept, and the others are read on their own. -/
theorem entries_directive {own : Directive} {condition : List Text} {text : Text}
    (h : (Stretch.directive own condition text).IsRead) :
    ∃ first others, splitOn '\n' text = first :: others ∧ (trim first).head? = some '#' ∧
      entries text = .directive (trim first) :: others.flatMap entriesOfLine := by
  obtain ⟨writing, rfl, rfl, rfl⟩ := exists_writing h
  obtain ⟨first, others, -, hText, hTrim⟩ := writing.exists_lines
  have hMark : (trim (writing.blanks ++ '#' :: (writing.front ++ first))).head? = some '#' := by
    rw [hTrim]
    rfl
  refine ⟨_, others, hText, hMark, ?_⟩
  rw [entries_eq_flatMap, hText, List.flatMap_cons, entriesOfLine_directive hMark]
  rfl

/-- Whether an entry is a directive line. -/
def isDirective : BodyLine → Bool
  | .member _ => false
  | .directive _ => true

/-- A line that does not begin with a hash sign gives enumerators only. -/
theorem exists_member_of_mem_entriesOfLine {line : Text} (h : (trim line).head? ≠ some '#')
    {entry : BodyLine} (hEntry : entry ∈ entriesOfLine line) :
    ∃ name, entry = .member name ∧ ∀ c ∈ name, isBlank c = false := by
  unfold entriesOfLine at hEntry
  split at hEntry
  · cases hEntry
  · rename_i rest hHash
    rw [hHash] at h
    exact absurd rfl h
  · obtain ⟨field, _, hField⟩ := List.mem_filterMap.mp hEntry
    unfold memberOfField? at hField
    split at hField
    · cases hField
    · cases hField
      refine ⟨_, rfl, fun c hc => ?_⟩
      have hOwn := List.all_eq_true.mp List.all_takeWhile c hc
      simpa using hOwn

theorem countP_entriesOfLine (line : Text) :
    (entriesOfLine line).countP isDirective = if (trim line).head? = some '#' then 1 else 0 := by
  by_cases hMark : (trim line).head? = some '#'
  · rw [if_pos hMark, entriesOfLine_directive hMark]
    rfl
  · rw [if_neg hMark, List.countP_eq_zero]
    intro entry hEntry
    obtain ⟨name, rfl, _⟩ := exists_member_of_mem_entriesOfLine hMark hEntry
    exact Bool.false_ne_true

/-- Lines give no more directive lines than they are. -/
theorem countP_flatMap_entriesOfLine_le (lines : List Text) :
    (lines.flatMap entriesOfLine).countP isDirective ≤ lines.length := by
  induction lines with
  | nil => exact Nat.le_refl 0
  | cons line lines ih =>
      rw [List.flatMap_cons, List.countP_append, countP_entriesOfLine, List.length_cons]
      split
      · omega
      · omega

/-- All of some lines are kept as directive lines if each of them begins with a hash sign. -/
theorem flatMap_entriesOfLine_eq_iff (lines : List Text) :
    lines.flatMap entriesOfLine = lines.map (fun line => .directive (trim line)) ↔
      ∀ line ∈ lines, (trim line).head? = some '#' := by
  constructor
  · intro h
    induction lines with
    | nil => simp
    | cons line lines ih =>
        by_cases hMark : (trim line).head? = some '#'
        · rw [List.flatMap_cons, List.map_cons, entriesOfLine_directive hMark,
            List.singleton_append] at h
          exact List.forall_mem_cons.mpr ⟨hMark, ih (List.cons.inj h).2⟩
        · -- There would be more directive lines than lines that can give one.
          have hCount := congrArg (List.countP isDirective) h
          have hAll : ((line :: lines).map fun line => BodyLine.directive (trim line)).countP
              isDirective = lines.length + 1 := by
            rw [List.countP_map]
            exact List.countP_eq_length.mpr fun _ _ => rfl
          have hFew := countP_flatMap_entriesOfLine_le lines
          rw [hAll, List.flatMap_cons, List.countP_append, countP_entriesOfLine,
            if_neg hMark] at hCount
          omega
  · intro h
    induction lines with
    | nil => rfl
    | cons line lines ih =>
        rw [List.forall_mem_cons] at h
        rw [List.flatMap_cons, List.map_cons, entriesOfLine_directive h.1, ih h.2]
        rfl

/--
The lines of a directive line are kept, and nothing of it is taken for an enumerator, exactly
if every line it goes on to begins with a hash sign.
-/
theorem entries_eq_directives_iff {own : Directive} {condition : List Text} {text : Text}
    (h : (Stretch.directive own condition text).IsRead) :
    entries text = (trimmedLines text).map .directive ↔
      ∀ line ∈ (trimmedLines text).tail, line.head? = some '#' := by
  obtain ⟨first, others, hText, _, hEntries⟩ := entries_directive h
  have hLines : trimmedLines text = trim first :: others.map trim := by
    rw [trimmedLines, hText, List.map_cons]
  rw [hEntries, hLines, List.map_cons, List.map_map, List.cons.injEq, List.tail_cons,
    List.forall_mem_map]
  simp only [true_and]
  exact flatMap_entriesOfLine_eq_iff others

end Enumeration

end ValueNames
