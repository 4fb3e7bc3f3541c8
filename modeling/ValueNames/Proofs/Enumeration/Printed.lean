import ValueNames.Proofs.Enumeration.Lines
import ValueNames.Proofs.Finder

/-!
# Printed declarations

A declaration can be printed with one entry of its body on each line: an enumerator ends
with a comma, and a directive line stands as it is. If its names are words and no entry holds
what would end it, the declaration is read back as it was, wherever it stands in a source
that has no other `enum`.

## Main results

* `entries_printedBody` — the entries of a printed body are read back.
* `Printable.declarationAt?_text` — a printed declaration is read off its own text.
* `Finder.find_printed` — a finder reads a printed declaration back, in every region that
  holds it.
-/

namespace ValueNames

open Text

/-! ## Entries -/

/-- An entry of a body as it is printed. -/
def BodyLine.printed : BodyLine → Text
  | member name => name ++ [',']
  | directive text => text

/-- Whether an entry can be told from what is printed around it. -/
def BodyLine.IsPlain : BodyLine → Prop
  | member name => name ≠ [] ∧ name.head? ≠ some '#' ∧
      ∀ c ∈ name, isBlank c = false ∧ c ≠ ',' ∧ c ≠ Enumeration.closingBrace
  | directive text => text.head? = some '#' ∧ trim text = text ∧ '\n' ∉ text ∧
      Enumeration.closingBrace ∉ text

instance : DecidablePred BodyLine.IsPlain
  | .member name => decidable_of_iff (name ≠ [] ∧ name.head? ≠ some '#' ∧
      (name.all fun c => !isBlank c && c != ',' && c != Enumeration.closingBrace) = true)
      (by simp [BodyLine.IsPlain, and_assoc])
  | .directive text => inferInstanceAs (Decidable (text.head? = some '#' ∧ trim text = text ∧
      '\n' ∉ text ∧ Enumeration.closingBrace ∉ text))

namespace Enumeration

/-- The text of a body with one entry on each line. -/
def printedBody (body : List BodyLine) : Text := body.flatMap fun line => line.printed ++ ['\n']

theorem printedBody_cons (line : BodyLine) (body : List BodyLine) :
    printedBody (line :: body) = line.printed ++ '\n' :: printedBody body := by
  rw [printedBody, List.flatMap_cons, List.append_assoc]
  rfl

/-- A printed entry stands on one line and does not end the body. -/
theorem BodyLine.not_mem_printed {line : BodyLine} (h : line.IsPlain) :
    '\n' ∉ line.printed ∧ closingBrace ∉ line.printed := by
  cases line with
  | directive text => exact h.2.2
  | member name =>
      obtain ⟨_, _, hEach⟩ := h
      have hNewline : '\n' ∉ name := fun hMem => absurd (hEach _ hMem).1 (by decide)
      have hBrace : closingBrace ∉ name := fun hMem => (hEach _ hMem).2.2 rfl
      rw [BodyLine.printed, List.mem_append, List.mem_append, not_or, not_or, List.mem_singleton,
        List.mem_singleton]
      exact ⟨⟨hNewline, by decide⟩, hBrace, by decide⟩

/-- A printed entry begins with a character that is not blank. -/
theorem exists_head_printed {line : BodyLine} (h : line.IsPlain) :
    ∃ c rest, line.printed = c :: rest ∧ isBlank c = false := by
  cases line with
  | directive text =>
      obtain ⟨rest, hRest⟩ := List.head?_eq_some_iff.mp h.1
      exact ⟨'#', rest, hRest, by decide⟩
  | member name =>
      obtain ⟨hSome, _, hEach⟩ := h
      obtain ⟨c, rest, rfl⟩ := List.exists_cons_of_ne_nil hSome
      exact ⟨c, rest ++ [','], rfl, (hEach c List.mem_cons_self).1⟩

/-- A name without blanks is read as an enumerator of its own. -/
theorem memberOfField?_name {name : Text} (hBlank : ∀ c ∈ name, isBlank c = false)
    (hSome : name ≠ []) : memberOfField? name = some (.member name) := by
  have hWord : firstWord (name ++ []) = name := firstWord_append hBlank hSome (by simp)
  rw [List.append_nil] at hWord
  rw [memberOfField?, hWord]
  split
  · exact absurd rfl hSome
  · rfl

/-- A printed entry is read back. -/
theorem entriesOfLine_printed {line : BodyLine} (h : line.IsPlain) :
    entriesOfLine line.printed = [line] := by
  cases line with
  | directive text =>
      obtain ⟨hMark, hTrim, _⟩ := h
      have hLine : entriesOfLine text = [.directive (trim text)] :=
        entriesOfLine_directive (by rw [hTrim]; exact hMark)
      rw [BodyLine.printed, hLine, hTrim]
  | member name =>
      obtain ⟨hSome, hMark, hEach⟩ := h
      have hBlank : ∀ c ∈ name, isBlank c = false := fun c hc => (hEach c hc).1
      have hComma : ',' ∉ name := fun hMem => (hEach _ hMem).2.1 rfl
      have hTrim : trim (name ++ [',']) = name ++ [','] := by
        apply trim_of_not_blank
        intro c hc
        rcases List.mem_append.mp hc with hName | hLast
        · exact hBlank c hName
        · rw [List.mem_singleton.mp hLast]
          decide
      have hFields : (splitOn ',' (name ++ [','])).filterMap memberOfField? = [.member name] := by
        have hSplit : splitOn ',' (name ++ ',' :: []) = [name] ++ [[]] := by
          rw [splitOn_append_sep, splitOn_of_not_mem hComma]
          rfl
        rw [hSplit, List.filterMap_append, List.filterMap_cons, memberOfField?_name hBlank hSome]
        rfl
      rw [BodyLine.printed, entriesOfLine, hTrim]
      split
      · rename_i hNone
        exact absurd hNone (by simp)
      · rename_i rest hHash
        -- The name is not empty, so that the hash sign would be its first character.
        obtain ⟨c, others, rfl⟩ := List.exists_cons_of_ne_nil hSome
        obtain ⟨rfl, _⟩ := List.cons.inj hHash
        exact absurd rfl hMark
      · exact hFields

/-- The entries of a printed body are read back. -/
theorem entries_printedBody {body : List BodyLine} (h : ∀ line ∈ body, line.IsPlain) :
    entries (printedBody body) = body := by
  induction body with
  | nil => rfl
  | cons line body ih =>
      have hLine : line.IsPlain := h line List.mem_cons_self
      have hRest : ∀ other ∈ body, other.IsPlain :=
        fun other hOther => h other (List.mem_cons_of_mem line hOther)
      rw [printedBody_cons, entries_append_newline,
        entries_of_not_mem (BodyLine.not_mem_printed hLine).1, entriesOfLine_printed hLine,
        ih hRest]
      rfl

theorem closingBrace_not_mem_printedBody {body : List BodyLine}
    (h : ∀ line ∈ body, line.IsPlain) : closingBrace ∉ printedBody body := by
  intro hMem
  obtain ⟨line, hLine, hIn⟩ := List.mem_flatMap.mp hMem
  rcases List.mem_append.mp hIn with hPrinted | hLast
  · exact (BodyLine.not_mem_printed (h line hLine)).2 hPrinted
  · exact absurd (List.mem_singleton.mp hLast) (by decide)

/-! ## Declarations -/

/--
A declaration that can be printed and read back: it has a tag or a typedef name, and
something in its body.
-/
structure Printable where
  tag : Text
  body : List BodyLine
  typedefName : Text
  tag_word : ∀ c ∈ tag, isWord c = true
  typedefName_word : ∀ c ∈ typedefName, isWord c = true
  named : ¬ (tag = [] ∧ typedefName = [])
  body_ne_nil : body ≠ []
  body_plain : ∀ line ∈ body, line.IsPlain

namespace Printable

variable (printable : Printable)

/-- The text of the declaration, from its keyword to its semicolon. -/
def text : Text :=
  "enum ".toList ++ printable.tag ++ [' ', openingBrace, '\n'] ++ printedBody printable.body ++
    [closingBrace, ' '] ++ printable.typedefName ++ [';']

/-- The typedef name, or the tag if it has none. -/
def name : Text := if printable.typedefName = [] then printable.tag else printable.typedefName

/-- The type of the values. -/
def typeName : Text :=
  if printable.typedefName = [] then "enum ".toList ++ printable.tag else printable.typedefName

/-- What is read off the text of the declaration. -/
def declared : Declaration :=
  ⟨printable.tag, printedBody printable.body, printable.typedefName⟩

/-- The body begins with a character that is not blank. -/
theorem exists_head_body :
    ∃ c rest, printedBody printable.body = c :: rest ∧ isBlank c = false := by
  obtain ⟨line, body, hBody⟩ := List.exists_cons_of_ne_nil printable.body_ne_nil
  have hLine : line.IsPlain := printable.body_plain line (by rw [hBody]; exact List.mem_cons_self)
  obtain ⟨c, rest, hPrinted, hBlank⟩ := exists_head_printed hLine
  refine ⟨c, rest ++ '\n' :: printedBody body, ?_, hBlank⟩
  rw [hBody, printedBody_cons, hPrinted]
  rfl

theorem trimStart_body :
    trimStart ('\n' :: printedBody printable.body) = printedBody printable.body := by
  obtain ⟨c, rest, hBody, hBlank⟩ := printable.exists_head_body
  rw [trimStart, List.dropWhile_cons_of_pos (by decide), hBody,
    List.dropWhile_cons_of_neg (by simp [hBlank])]

/-- A word behind a space, with nothing but a gap behind it, is read as a name. -/
theorem name_read {word gap : Text} (hWord : ∀ c ∈ word, isWord c = true)
    (hGap : gap = [] ∨ gap = [' ']) :
    word = (trimStart (' ' :: (word ++ gap))).takeWhile isWord ∧
      trimStart ((trimStart (' ' :: (word ++ gap))).dropWhile isWord) = [] := by
  have hSpace : isWord ' ' = false := by decide
  have hStart : trimStart (' ' :: (word ++ gap)) = word ++ gap ∨
      word = [] ∧ trimStart (' ' :: (word ++ gap)) = [] := by
    rw [trimStart, List.dropWhile_cons_of_pos (by decide)]
    cases word with
    | nil =>
        refine .inr ⟨rfl, ?_⟩
        rcases hGap with rfl | rfl
        · rfl
        · rfl
    | cons c word =>
        have hc := not_isBlank_of_isWord (hWord c List.mem_cons_self)
        exact .inl (List.dropWhile_cons_of_neg (by simp [hc]))
  rcases hStart with hStart | ⟨rfl, hStart⟩
  · rw [hStart, List.takeWhile_append_of_pos hWord, List.dropWhile_append_of_pos hWord]
    rcases hGap with rfl | rfl
    · exact ⟨(List.append_nil word).symm, rfl⟩
    · rw [List.takeWhile_cons_of_neg (by simp [hSpace]), List.append_nil]
      exact ⟨rfl, rfl⟩
  · rw [hStart]
    exact ⟨rfl, rfl⟩

theorem writtenAs_declared :
    printable.declared.WrittenAs (' ' :: (printable.tag ++ [' ']))
      ('\n' :: printedBody printable.body) (' ' :: (printable.typedefName ++ [])) where
  separate := by
    show isWord ' ' = false
    decide
  tag := name_read printable.tag_word (.inr rfl)
  body := by
    rw [trimStart_body]
    refine ⟨rfl, ?_⟩
    rintro c hc rfl
    exact closingBrace_not_mem_printedBody printable.body_plain hc
  typedefName := name_read printable.typedefName_word (.inl rfl)

/-- The text of the declaration from its three pieces. -/
theorem text_append (rest : Text) :
    printable.text ++ rest = written (' ' :: (printable.tag ++ [' ']))
      ('\n' :: printedBody printable.body) (' ' :: (printable.typedefName ++ [])) rest := by
  have hWord : "enum ".toList = "enum".toList ++ [' '] := by decide
  unfold text written
  rw [hWord]
  generalize "enum".toList = keyword
  simp only [List.append_assoc, List.cons_append, List.nil_append]

/-- A printed declaration is read off its own text, behind any end of a word. -/
theorem declarationAt?_text {before : Option Char} (hBefore : before.any isWord = false)
    (rest : Text) :
    declarationAt? before (printable.text ++ rest) = some (printable.declared, rest) :=
  declarationAt?_eq_some_iff.mpr
    ⟨hBefore, _, _, _, printable.text_append rest, printable.writtenAs_declared⟩

/-- A printed declaration makes an enumeration with the entries that were printed. -/
theorem ofParts_declared (span : Span) :
    ofParts printable.tag (printedBody printable.body) printable.typedefName span =
      .ok ⟨printable.name, printable.typeName, printable.body, span⟩ := by
  have hBody : allBlank (printedBody printable.body) = false := by
    obtain ⟨c, rest, hBody, hBlank⟩ := printable.exists_head_body
    rw [hBody, allBlank, List.all_cons, hBlank, Bool.false_and]
  rw [ofParts, if_neg printable.named, hBody, if_neg Bool.false_ne_true,
    entries_printedBody printable.body_plain, name, typeName]
  split
  · rfl
  · rfl

end Printable

/-! ## Searching a source -/

/-- Where the keyword does not stand, no declaration is read. -/
theorem declarationAt?_eq_none {before : Option Char} {s : Text}
    (h : ¬ "enum".toList <+: s) : declarationAt? before s = none := by
  cases hRead : declarationAt? before s with
  | none => rfl
  | some found =>
      obtain ⟨tail, rfl, _⟩ := declarationAt?_suffix hRead
      exact absurd (List.prefix_append _ _) h

/-- In a text without another keyword, a search finds a printed declaration and nothing else. -/
theorem search_printed (printable : Printable) {front back : Text} (hLine : EndsLine front)
    (hFront : ¬ "enum".toList <:+: front) (hBack : ¬ "enum".toList <:+: back) :
    declaration.search (front ++ (printable.text ++ back)) =
      [(printable.declared, ⟨size front, size front + size printable.text⟩)] := by
  apply Recogniser.search_eq_singleton
  · intro s hSuffix hSome before
    exact declarationAt?_eq_none (hLine.not_prefix (by decide) hFront hSuffix hSome _)
  · apply printable.declarationAt?_text
    rcases hLine with rfl | ⟨line, rfl⟩
    · rfl
    · rw [List.getLast?_concat]
      decide
  · intro s hSuffix _ before
    apply declarationAt?_eq_none
    intro hPrefix
    exact hBack (hPrefix.isInfix.trans hSuffix.isInfix)

end Enumeration

namespace Finder

open Enumeration

/--
A finder reads a printed declaration back, in every region that holds it: if the source has
no keyword before the declaration and none behind it, and a line feed stands before it, the
declaration is all that is found, with the entries that were printed and with its place in
the whole source.
-/
theorem find_printed (printable : Printable) {before after : Text} {region : Span}
    (hLine : EndsLine before) (hBefore : ¬ "enum".toList <:+: before)
    (hAfter : ¬ "enum".toList <:+: after)
    (hStart : IsBoundary (before ++ (printable.text ++ after)) region.start)
    (hStop : IsBoundary (before ++ (printable.text ++ after)) region.stop)
    (hFrom : region.start ≤ size before)
    (hTo : size before + size printable.text ≤ region.stop) :
    enumerations.find (before ++ (printable.text ++ after)) region =
      .ok [.enumeration ⟨printable.name, printable.typeName, printable.body,
        ⟨size before, size before + size printable.text⟩⟩] := by
  obtain ⟨text, hText⟩ := exists_slice? hStart hStop (by omega)
  obtain ⟨ahead, middle, last, behind, rfl, hAhead, rfl, rfl⟩ :=
    exists_around_of_slice? rfl hText hFrom hTo
  have hMiddleLine : EndsLine middle := hLine.of_suffix (List.suffix_append ahead middle)
  have hMiddle : ¬ "enum".toList <:+: middle :=
    fun hIn => hBefore (hIn.trans (List.suffix_append ahead middle).isInfix)
  have hLast : ¬ "enum".toList <:+: last :=
    fun hIn => hAfter (hIn.trans (List.prefix_append last behind).isInfix)
  have hSpan : (⟨size middle, size middle + size printable.text⟩ : Span).shift region.start =
      ⟨size (ahead ++ middle), size (ahead ++ middle) + size printable.text⟩ := by
    simp only [Span.shift, size_append, Span.mk.injEq]
    omega
  have hEntity : enumerationOf region.start
      (printable.declared, ⟨size middle, size middle + size printable.text⟩) =
        .ok (.enumeration ⟨printable.name, printable.typeName, printable.body,
          ⟨size (ahead ++ middle), size (ahead ++ middle) + size printable.text⟩⟩) := by
    rw [enumerationOf, hSpan, Printable.declared, printable.ofParts_declared]
    rfl
  have hRegion : regionText (ahead ++ middle ++ (printable.text ++ (last ++ behind))) region =
      .ok (middle ++ (printable.text ++ last)) := regionText_eq_ok_iff.mpr hText
  show (regionText _ region).bind _ = _
  rw [hRegion]
  show (declaration.search _).mapM (enumerationOf region.start) = _
  rw [search_printed printable hMiddleLine hMiddle hLast, List.mapM_cons, hEntity]
  rfl

/-- A declaration with a tag, a typedef name and directive lines in its body. -/
def colors : Printable where
  tag := "color".toList
  body := [.member "RED".toList, .directive "#ifdef X".toList, .member "BLUE".toList,
    .directive "#endif".toList]
  typedefName := "Color".toList
  tag_word := List.all_eq_true.mp (by decide)
  typedefName_word := List.all_eq_true.mp (by decide)
  named := by decide
  body_ne_nil := List.cons_ne_nil _ _
  body_plain := by decide

/-- It is read back behind a character of two bytes, in a region that begins with a line feed. -/
theorem find_colors :
    ¬ "enum".toList <:+: "é\n".toList ∧ ¬ "enum".toList <:+: "\nint x;".toList ∧
      IsBoundary ("é\n".toList ++ (colors.text ++ "\nint x;".toList)) 2 ∧
      IsBoundary ("é\n".toList ++ (colors.text ++ "\nint x;".toList)) 52 ∧
      enumerations.find ("é\n".toList ++ (colors.text ++ "\nint x;".toList)) ⟨2, 52⟩ =
        .ok [.enumeration ⟨"Color".toList, "Color".toList, colors.body, ⟨3, 51⟩⟩] := by
  have hLine : "é\n".toList = "é".toList ++ ['\n'] := rfl
  have hBefore : ¬ "enum".toList <:+: "é\n".toList := by decide +kernel
  have hAfter : ¬ "enum".toList <:+: "\nint x;".toList := by decide +kernel
  have hStart : IsBoundary ("é\n".toList ++ (colors.text ++ "\nint x;".toList)) 2 :=
    ⟨"é".toList, '\n' :: (colors.text ++ "\nint x;".toList), rfl, by decide +kernel⟩
  have hStop : IsBoundary ("é\n".toList ++ (colors.text ++ "\nint x;".toList)) 52 :=
    ⟨"é\n".toList ++ (colors.text ++ ['\n']), "int x;".toList, rfl, by decide +kernel⟩
  have hSize : size colors.text = 48 := by decide +kernel
  refine ⟨hBefore, hAfter, hStart, hStop, ?_⟩
  have hFrom : 2 ≤ size "é\n".toList := by decide +kernel
  have hTo : size "é\n".toList + size colors.text ≤ 52 := by
    rw [hSize]
    decide +kernel
  have hFind : enumerations.find _ ⟨2, 52⟩ = _ :=
    find_printed colors (.inr ⟨_, hLine⟩) hBefore hAfter hStart hStop hFrom hTo
  rw [hSize] at hFind
  exact hFind

end Finder

end ValueNames
