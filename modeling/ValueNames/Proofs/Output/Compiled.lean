import ValueNames.Output.File
import ValueNames.Proofs.Conditional.Reread
import ValueNames.Proofs.Conditional.WholeLines
import ValueNames.Proofs.Item.Around

/-!
# What is compiled in the generated file

The lines and functions of the items are written one behind the other. Where each of them
stands alone, the directive lines of the written text open and close the conditions that the
items do: a guard line is read as itself, and a function leaves the conditions as they are.
Around all of them the file has one condition, that the guard macro is defined.

## Main results

* `Item.leavesOpen_written` — the conditions open behind written items are those of the items.
* `leavesOpen_fileHead` — the text ahead of the functions opens the condition of the guard macro.
* `Conditional.LeavesOpen.compiledWhere` — where a function behind such a text is compiled.
-/

namespace ValueNames

open Text Conditional

variable {settings : Settings}

/-! ## Written items -/

namespace Item

/-- The lines and functions written for some items, each with a line feed behind it. -/
def written (settings : Settings) (items : List Item) : Text :=
  items.flatMap fun item => item.output settings ++ ['\n']

/--
Whether what is written for an item stands alone: nothing is joined to a guard line, and the
conditional blocks of a function are closed in it.
-/
def StandsAlone (settings : Settings) : Item → Prop
  | guard line => line.text.getLast? ≠ some '\\'
  | entity found => Balanced (directiveLines (found.function settings))

instance : DecidablePred (StandsAlone settings)
  | guard line => inferInstanceAs (Decidable (line.text.getLast? ≠ some '\\'))
  | entity found =>
      inferInstanceAs (Decidable (Balanced (directiveLines (found.function settings))))

/-- An entity, or a line of a guard whose condition is that of a directive line. -/
inductive IsScanned : Item → Prop
  | entity (found : Entity) : IsScanned (.entity found)
  | opening {guard : Guard} (h : IsCondition guard.condition) : IsScanned (opening guard)
  | closing {guard : Guard} (h : IsCondition guard.condition) : IsScanned (closing guard)

end Item

/-- The function of an enumeration is whole lines. -/
theorem Enumeration.wholeLines_function (enumeration : Enumeration) (sentinel : Text) :
    WholeLines (enumeration.function sentinel) := by
  obtain ⟨front, hFront⟩ : ∃ front, enumeration.function sentinel =
      front ++ "\";\n    \x7d\n    return in_to_str[ in ];\n\x7d\n".toList := ⟨_, rfl⟩
  have hSplit : "\";\n    \x7d\n    return in_to_str[ in ];\n\x7d\n".toList =
      "\";\n    \x7d\n    return in_to_str[ in ];\n".toList ++ ['\x7d'] ++ ['\n'] := by
    decide +kernel
  rw [hFront, hSplit, ← List.append_assoc, ← List.append_assoc]
  refine wholeLines_of_not_continues (not_continues_of_getLast? (c := '\x7d') ?_ (by decide))
  exact List.getLast?_concat

/-- A function ends with a line feed or with its closing brace. -/
theorem Entity.not_continues_function (found : Entity) : ¬ Continues (found.function settings) := by
  cases found with
  | enumeration declared =>
      rcases declared.wholeLines_function settings.enumSentinel with hNone | ⟨front, hFront, _⟩
      · rw [function, hNone]
        decide
      · refine not_continues_of_getLast? (c := '\n') ?_ (by decide)
        rw [function, hFront]
        exact List.getLast?_concat
  | macroGroup group =>
      obtain ⟨front, hFront⟩ : ∃ front, group.function settings.macroFunction
          settings.macroSentinel = front ++ "\";\n\x7d".toList := ⟨_, rfl⟩
      have hSplit : "\";\n\x7d".toList = "\";\n".toList ++ ['\x7d'] := by decide
      refine not_continues_of_getLast? (c := '\x7d') ?_ (by decide)
      rw [function, hFront, hSplit, ← List.append_assoc]
      exact List.getLast?_concat

namespace Guard

variable {guard : Guard}

/-- An opening line that does not end with a backslash joins nothing. -/
theorem not_continues_opening (h : IsCondition guard.condition)
    (hLast : guard.opening.getLast? ≠ some '\\') : ¬ Continues guard.opening := by
  intro hJoins
  have hCondition : Continues guard.condition := hJoins.of_append (by decide)
  rw [continues_iff_of_trimEnd_eq h.trimEnd_eq, ← getLast?_opening_eq_backslash_iff] at hCondition
  exact hLast hCondition

/-- A closing line joins nothing: it ends with a comment. -/
theorem not_continues_closing (h : IsCondition guard.condition) : ¬ Continues guard.closing := by
  obtain ⟨note, _, hClosing⟩ := exists_closing_eq h
  have hLast : " */".toList.getLast? = some '/' := rfl
  refine not_continues_of_getLast? (c := '/') ?_ (by decide)
  rw [hClosing, List.getLast?_append, List.getLast?_append, hLast]
  rfl

end Guard

/-- An item that stands alone is read as the item. -/
theorem Item.IsScanned.leavesOpen {item : Item} (h : item.IsScanned)
    (hAlone : item.StandsAlone settings) :
    LeavesOpen (item.output settings ++ ['\n']) fun holds values =>
      Item.truths holds values [item] := by
  cases h with
  | entity found =>
      have hEnd : ¬ Continues (found.function settings) := found.not_continues_function
      refine .of_balanced (wholeLines_of_not_continues hEnd) ?_
      rw [output, directiveLines_concat hEnd]
      exact hAlone
  | @opening guard hCondition =>
      have hLast : guard.opening.getLast? ≠ some '\\' := hAlone
      have hRead := (Guard.readsBack_iff hCondition).mpr hLast []
      refine ⟨wholeLines_of_not_continues (Guard.not_continues_opening hCondition hLast), ?_⟩
      intro holds values
      show Conditional.truths holds values (directiveLines (guard.opening ++ ['\n'])) = _
      rw [directiveLines_of_lineAt? hRead, truths_opening]
      rfl
  | @closing guard hCondition =>
      obtain ⟨comment, _, hRead⟩ := Guard.exists_lineAt?_closing hCondition
      refine ⟨wholeLines_of_not_continues (Guard.not_continues_closing hCondition), ?_⟩
      intro holds values
      show Conditional.truths holds values (directiveLines (guard.closing ++ ['\n'])) = _
      rw [directiveLines_of_lineAt? (hRead []), truths_closing]
      cases values <;> rfl

/-- Items that stand alone are read one by one. -/
theorem Item.leavesOpen_written {items : List Item} (hItems : ∀ item ∈ items, item.IsScanned)
    (hAlone : ∀ item ∈ items, item.StandsAlone settings) :
    LeavesOpen (written settings items) fun holds values => Item.truths holds values items := by
  induction items with
  | nil => exact .of_not_mem (.inl rfl) List.not_mem_nil
  | cons item items ih =>
      rw [List.forall_mem_cons] at hItems hAlone
      have hBoth := (hItems.1.leavesOpen hAlone.1).append (ih hItems.2 hAlone.2)
      simp only [← Item.truths_append, List.singleton_append] at hBoth
      exact hBoth

/-! ## Functions in a written text -/

/--
A function stands in a text behind another piece of it, no directive line reaches over its
start, and it is compiled exactly where a condition holds: at its start, and at its end if it
closes its own conditional blocks.
-/
structure CompiledWhere (text ahead function : Text) (condition : (Guard → Bool) → Bool) :
    Prop where
  exists_behind : ∃ behind, text = ahead ++ (function ++ behind)
  apart : ∀ line ∈ directiveLines text,
    line.span.stop ≤ size ahead ∨ size ahead ≤ line.span.start
  start_eq : ∀ holds, Guard.Lawful holds →
    compiled holds (directiveLines text) (size ahead) = condition holds
  stop_eq : Balanced (directiveLines function) → ∀ holds, Guard.Lawful holds →
    compiled holds (directiveLines text) (size (ahead ++ function)) = condition holds

/-- A function behind whole lines is compiled where the conditions hold that these leave open. -/
theorem Conditional.LeavesOpen.compiledWhere {ahead function : Text}
    {condition : (Guard → Bool) → Bool}
    {opened : (Guard → Bool) → List Bool → List Bool} (hAhead : LeavesOpen ahead opened)
    (hFunction : WholeLines function)
    (hCondition : ∀ holds, Guard.Lawful holds → (opened holds []).all id = condition holds)
    (behind : Text) :
    CompiledWhere (ahead ++ (function ++ behind)) ahead function condition where
  exists_behind := ⟨behind, rfl⟩
  apart := hAhead.wholeLines.stop_le_or_le_start (function ++ behind)
  start_eq holds hLawful := by
    rw [hAhead.compiled_append, hCondition holds hLawful]
  stop_eq hBalanced holds hLawful := by
    rw [← List.append_assoc, (hAhead.append (.of_balanced hFunction hBalanced)).compiled_append,
      hCondition holds hLawful]

/-! ## The generated file -/

/-- The condition around all that is generated. -/
def Settings.fileGuard (settings : Settings) : Guard :=
  ⟨.expression, "defined(".toList ++ settings.guardMacro ++ ")".toList⟩

/-- The generated file ahead of its functions. -/
def fileHead (settings : Settings) : Text :=
  "/* Automatically generated by strgen. DO NOT EDIT. */\n\n/**\n".toList ++
    (" * \\file ".toList ++ settings.outputFile ++ "\n *\n".toList) ++
    (" * \\brief Automatically generated helper functions for debugging\n */\n".toList ++
      licence ++ "\n#include \"common.h\"\n\n".toList) ++
    (settings.fileGuard.opening ++ ['\n']) ++
    ("\n#include \"".toList ++ settings.companionHeader ++ "\"\n\n".toList)

/-- The functions stand in the generated file behind its head. -/
theorem exists_outputFile_eq (settings : Settings) :
    ∃ behind, ∀ functions,
      outputFile settings functions = fileHead settings ++ (functions ++ behind) := by
  have hFile : "/* Automatically generated by strgen. DO NOT EDIT. */\n\n/**\n * \\file ".toList =
      "/* Automatically generated by strgen. DO NOT EDIT. */\n\n/**\n".toList ++
        " * \\file ".toList := by decide +kernel
  have hBrief :
      "\n *\n * \\brief Automatically generated helper functions for debugging\n */\n".toList =
        "\n *\n".toList ++
          " * \\brief Automatically generated helper functions for debugging\n */\n".toList := by
    decide +kernel
  have hInclude : "\n#include \"common.h\"\n\n#if defined(".toList =
      "\n#include \"common.h\"\n\n".toList ++ "#if defined(".toList := by decide +kernel
  have hCompanion : ")\n\n#include \"".toList =
      ")".toList ++ (['\n'] ++ "\n#include \"".toList) := by
    decide +kernel
  have hGuard : settings.fileGuard.opening =
      "#if defined(".toList ++ settings.guardMacro ++ ")".toList := rfl
  refine ⟨"\n\n#endif /* ".toList ++ (settings.guardMacro ++
    " */\n/* End of automatically generated file. */\n\n".toList), fun functions => ?_⟩
  unfold outputFile fileHead
  rw [hFile, hBrief, hInclude, hCompanion, hGuard]
  simp only [List.append_assoc]

/-- The settings that are written into the head of the file are texts of one line. -/
structure Settings.HeadInLines (settings : Settings) : Prop where
  outputFile : '\n' ∉ settings.outputFile
  guardMacro : '\n' ∉ settings.guardMacro
  companionHeader : '\n' ∉ settings.companionHeader

theorem Settings.isCondition_fileGuard (h : '\n' ∉ settings.guardMacro) :
    IsCondition settings.fileGuard.condition := by
  have hClosed : trimEnd ")".toList ≠ [] := by decide
  refine ⟨?_, trimEnd_append_of_ne_nil hClosed _, ?_⟩
  · intro c hc
    obtain rfl : 'd' = c := Option.some.inj hc
    decide
  · exact (isJoined_of_not_mem h).between (by decide) (by decide)

/-- The line with the name of the file is no directive line, and neither is the next one. -/
theorem leavesOpen_fileLine (h : '\n' ∉ settings.outputFile) :
    LeavesOpen (" * \\file ".toList ++ settings.outputFile ++ "\n *\n".toList)
      fun _ values => values := by
  have hSplit : "\n *\n".toList = '\n' :: " *\n".toList := by decide
  have hLine : '\n' ∉ " * \\file ".toList ++ settings.outputFile := by
    rw [List.mem_append, not_or]
    exact ⟨by decide, h⟩
  have hBlank : ∀ d ∈ [' '], isSpaceOrTab d = true := by simp [isSpaceOrTab]
  have hNone : ∀ v, lineAt? 0 (" * \\file ".toList ++ settings.outputFile ++ v) = none := fun v =>
    lineAt?_eq_none (c := '*') hBlank (by decide) (by decide) _
  have hNext : directiveLines " *\n".toList = [] := directiveLines_of_not_mem (by decide)
  refine .of_eq_nil ?_ ?_
  · refine .inr ⟨" * \\file ".toList ++ settings.outputFile ++ "\n *".toList, by simp, ?_⟩
    refine not_continues_of_getLast? (c := '*') ?_ (by decide)
    rw [List.getLast?_append]
    rfl
  · rw [hSplit, directiveLines_of_lineAt?_none hLine (hNone _), hNext]
    rfl

/-- The line that includes the other header is no directive line. -/
theorem leavesOpen_includeLine (h : '\n' ∉ settings.companionHeader) :
    LeavesOpen ("\n#include \"".toList ++ settings.companionHeader ++ "\"\n\n".toList)
      fun _ values => values := by
  have hSplit : "\n#include \"".toList ++ settings.companionHeader ++ "\"\n\n".toList =
      '\n' :: ("#include \"".toList ++ settings.companionHeader ++ ['"'] ++ '\n' :: ['\n']) := by
    simp
  have hLine : '\n' ∉ "#include \"".toList ++ settings.companionHeader ++ ['"'] := by
    simp only [List.mem_append, not_or]
    exact ⟨⟨by decide, h⟩, by decide⟩
  have hFirst : ∀ v, lineAt? 0 ([] ++ '\n' :: v) = none := fun _ => rfl
  have hNone : ∀ v, lineAt? 0
      ("#include \"".toList ++ settings.companionHeader ++ ['"'] ++ v) = none := fun v => rfl
  have hNext : directiveLines ['\n'] = [] := directiveLines_of_not_mem (by decide)
  refine .of_eq_nil ?_ ?_
  · refine .inr ⟨"\n#include \"".toList ++ settings.companionHeader ++ "\"\n".toList, by simp, ?_⟩
    refine not_continues_of_getLast? (c := '\n') ?_ (by decide)
    rw [List.getLast?_append]
    rfl
  · rw [hSplit, ← List.nil_append ('\n' :: _),
      directiveLines_of_lineAt?_none List.not_mem_nil (hFirst _),
      directiveLines_of_lineAt?_none hLine (hNone _), hNext]
    rfl

theorem hash_not_mem_licence : '#' ∉ licence := by
  unfold licence
  simp only [String.toList_append, List.mem_append, not_or, and_assoc]
  refine ⟨?_, ?_, ?_, ?_, ?_, ?_, ?_, ?_, ?_, ?_, ?_, ?_, ?_, ?_, ?_, ?_⟩ <;> decide +kernel

theorem wholeLines_licence : WholeLines licence := by
  obtain ⟨front, hFront⟩ : ∃ front, licence = front ++ " */\n".toList := by
    unfold licence
    exact ⟨_, String.toList_append⟩
  have hSplit : " */\n".toList = " */".toList ++ ['\n'] := by decide
  have hLast : " */".toList.getLast? = some '/' := by decide
  rw [hFront, hSplit, ← List.append_assoc]
  refine wholeLines_of_not_continues (not_continues_of_getLast? (c := '/') ?_ (by decide))
  rw [List.getLast?_append, hLast, Option.some_or]

/-- The head of the file opens the condition that the guard macro is defined. -/
theorem leavesOpen_fileHead (h : settings.HeadInLines) :
    LeavesOpen (fileHead settings) fun holds values => holds settings.fileGuard :: values := by
  have hStart : LeavesOpen "/* Automatically generated by strgen. DO NOT EDIT. */\n\n/**\n".toList
      fun _ values => values :=
    .of_not_mem (wholeLines_of_dropLast (by decide +kernel) (by decide +kernel)) (by decide +kernel)
  have hBrief : LeavesOpen
      " * \\brief Automatically generated helper functions for debugging\n */\n".toList
      fun _ values => values :=
    .of_not_mem (wholeLines_of_dropLast (by decide +kernel) (by decide +kernel)) (by decide +kernel)
  have hLicence : LeavesOpen licence fun _ values => values :=
    .of_not_mem wholeLines_licence hash_not_mem_licence
  have hCommon : LeavesOpen "\n#include \"common.h\"\n\n".toList fun _ values => values :=
    .of_eq_nil (wholeLines_of_dropLast (by decide +kernel) (by decide +kernel)) (by decide +kernel)
  have hCondition := Settings.isCondition_fileGuard h.guardMacro
  have hLast : settings.fileGuard.opening.getLast? ≠ some '\\' := by
    have hClosed : ")".toList.getLast? = some ')' := rfl
    rw [Ne, Guard.getLast?_opening_eq_backslash_iff, Settings.fileGuard, List.getLast?_append,
      hClosed, Option.some_or]
    decide
  have hAlone : (Item.opening settings.fileGuard).StandsAlone settings := hLast
  have hGuard : LeavesOpen (settings.fileGuard.opening ++ ['\n']) fun holds values =>
      holds settings.fileGuard :: values :=
    (Item.IsScanned.opening hCondition).leavesOpen hAlone
  exact (((hStart.append (leavesOpen_fileLine h.outputFile)).append
    ((hBrief.append hLicence).append hCommon)).append hGuard).append
      (leavesOpen_includeLine h.companionHeader)

end ValueNames
