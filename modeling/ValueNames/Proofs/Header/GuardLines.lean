import ValueNames.Output.File
import ValueNames.Proofs.Conditional.Reread
import ValueNames.Proofs.Conditional.Truth
import ValueNames.Proofs.Header.Groups
import ValueNames.Proofs.Scan.Outermost

/-!
# Guard lines in the generated file

The guard lines of a header are written into the generated file between its functions, each
on lines of its own. They reproduce the conditions of the header if they are read there as
the directive lines that they are meant to be. An opening line is, unless it ends with a
backslash: a condition whose last line is blank, or ends with a backslash and blanks, is
trimmed to such a line, and then it takes in what is written behind it.

## Main results

* `exists_scope_of_opens`, `exists_scope_of_closes` — the guard lines are those of the branches.
* `functions_of_opens` — an opening line stands on lines of its own, and is not the last item.
* `guards_read_of_ofText` — how the guard lines are read in the generated file.
-/

namespace ValueNames

open Scan Conditional

/-- An item is an entity or a line that opens or closes a guard. -/
theorem Item.isEntity_eq_not (item : Item) : item.isEntity = !(item.opens || item.closes) := by
  cases item with
  | entity found => rfl
  | guard line =>
      cases hLine : line.closing with
      | false => simp [isEntity, opens, hLine]
      | true => simp [isEntity, closes, hLine]

namespace ScannedHeader

variable {raw : Text} {settings : Settings} {finders : List Finder} {forest : Forest}

/-! ## Guard lines among the items -/

/-- A guard line of a header is a line of a branch. -/
theorem eq_line_of_mem_handsOut (hScans : settings.Scans raw finders forest) {placed : Placed}
    (hMem : placed ∈ settings.handsOut raw finders forest) (hGuard : placed.item.isEntity = false) :
    ∃ scope ∈ forest.scopes, placed = scope.openingLine ∨ placed = scope.closingLine := by
  have hInside : (settings.setup finders raw).FindsInside :=
    findsInside_finders hScans.finders_eq _ _
  obtain ⟨high, hWithin⟩ := hScans.isOf.within
  have hLine : placed ∈ forest.guardLines (settings.setup finders raw).guards true := by
    rw [← filter_guard_ordered_parts hInside hWithin (Comment.strip raw)]
    exact List.mem_filter.mpr ⟨hMem, by simp [hGuard]⟩
  exact Forest.eq_line_of_mem_guardLines hLine

theorem exists_scope_of_opens (hScans : settings.Scans raw finders forest) {placed : Placed}
    (hMem : placed ∈ settings.handsOut raw finders forest) (hOpens : placed.item.opens = true) :
    ∃ scope ∈ forest.scopes, placed = scope.openingLine := by
  have hGuard : placed.item.isEntity = false := by simp [Item.isEntity_eq_not, hOpens]
  obtain ⟨scope, hScope, rfl | rfl⟩ := eq_line_of_mem_handsOut hScans hMem hGuard
  · exact ⟨scope, hScope, rfl⟩
  · simp [Scope.closingLine, Item.opens] at hOpens

theorem exists_scope_of_closes (hScans : settings.Scans raw finders forest) {placed : Placed}
    (hMem : placed ∈ settings.handsOut raw finders forest) (hCloses : placed.item.closes = true) :
    ∃ scope ∈ forest.scopes, placed = scope.closingLine := by
  have hGuard : placed.item.isEntity = false := by simp [Item.isEntity_eq_not, hCloses]
  obtain ⟨scope, hScope, rfl | rfl⟩ := eq_line_of_mem_handsOut hScans hMem hGuard
  · simp [Scope.openingLine, Item.closes] at hCloses
  · exact ⟨scope, hScope, rfl⟩

/-- Every opening line has its closing line somewhere behind it. -/
theorem after_ne_nil_of_opens (hScans : settings.Scans raw finders forest)
    {before after : List Placed} {placed : Placed}
    (hSplit : settings.handsOut raw finders forest = before ++ placed :: after)
    (hOpens : placed.item.opens = true) : after ≠ [] := by
  have hInside : (settings.setup finders raw).FindsInside :=
    findsInside_finders hScans.finders_eq _ _
  obtain ⟨high, hWithin⟩ := hScans.isOf.within
  have hNested : Item.WellNested ((settings.handsOut raw finders forest).map (·.item)) :=
    Forest.wellNested_of_filter (Placed.ascending_ordered _) hWithin
      (filled_ordered_parts hInside forest (Comment.strip raw)) (List.infix_refl _)
      (filter_guard_ordered_parts hInside hWithin (Comment.strip raw))
  rintro rfl
  have hItems : (settings.handsOut raw finders forest).map (·.item) =
      before.map (·.item) ++ [placed.item] := by
    rw [hSplit, List.map_append]
    rfl
  have hBefore := hNested.closings_le_openings _ _ hItems
  have hEqual := hNested.openings_eq_closings
  have hOne : Item.openings [placed.item] = 1 ∧ Item.closings [placed.item] = 0 := by
    obtain ⟨offset, item⟩ := placed
    cases item with
    | guard line =>
        have hLine : line.closing = false := by simpa [Item.opens] using hOpens
        simp [Item.openings, Item.closings, Item.opens, Item.closes, hLine]
    | entity found => cases hOpens
  rw [hItems, Item.openings_append, Item.closings_append, hOne.1, hOne.2] at hEqual
  omega

/-- In the generated file an opening line stands on lines of its own, with a line behind it. -/
theorem functions_of_opens (hScans : settings.Scans raw finders forest)
    {before after : List Placed} {scope : Scope}
    (hSplit : settings.handsOut raw finders forest = before ++ scope.openingLine :: after) :
    Placed.functions settings (settings.handsOut raw finders forest) =
      (before.map (·.item.output settings)).flatMap (· ++ ['\n']) ++
        (scope.block.guard.opening ++
          '\n' :: Text.join ['\n'] (after.map (·.item.output settings))) := by
  have hSome := after_ne_nil_of_opens hScans hSplit rfl
  obtain ⟨next, behind, rfl⟩ := List.exists_cons_of_ne_nil hSome
  have hOrdered : Placed.ordered (settings.handsOut raw finders forest) =
      settings.handsOut raw finders forest := Placed.ordered_ordered _
  rw [Placed.functions, hOrdered, hSplit, List.map_append, List.map_cons, List.map_cons]
  exact Text.join_append_cons_cons _ _ _ _

/-! ## Guard lines read in the generated file -/

/--
The opening lines of a header stand in the generated file on lines of their own. Such a line
is read there as itself, whatever stands behind it, exactly if it does not end with a
backslash. Otherwise, and then some directive line of the header ends so when it is trimmed,
the line behind it is joined to it. Closing lines are always read as themselves.
-/
theorem guards_read_of_ofText {header : ScannedHeader} (h : ofText raw settings = .ok header) :
    ∃ forest, Forest.IsOf (directiveLines header.source) forest ∧
      (∀ before placed after, header.items = before ++ placed :: after →
        placed.item.opens = true →
        ∃ scope ∈ forest.scopes, placed = scope.openingLine ∧ after ≠ [] ∧
          Placed.functions settings header.items =
            (before.map (·.item.output settings)).flatMap (· ++ ['\n']) ++
              (scope.block.guard.opening ++
                '\n' :: Text.join ['\n'] (after.map (·.item.output settings))) ∧
          (scope.block.guard.ReadsBack ↔ scope.block.guard.opening.getLast? ≠ some '\\') ∧
          (scope.block.guard.opening.getLast? = some '\\' →
            (∃ line ∈ directiveLines header.source, line.condition.getLast? = some '\\') ∧
            ∀ next, lineAt? 0 (scope.block.guard.opening ++ '\n' :: next) =
              some (⟨.opens scope.block.guard.opener,
                Text.trimEnd (scope.block.guard.condition ++ '\n' :: (logicalLine next).1),
                ⟨0, Text.size (scope.block.guard.opening ++ '\n' :: (logicalLine next).1)⟩⟩,
                (logicalLine next).2))) ∧
      ∀ placed ∈ header.items, placed.item.closes = true →
        ∃ scope ∈ forest.scopes, placed = scope.closingLine ∧
          ∃ comment, scope.block.guard.closing = "#endif ".toList ++ comment ∧
            ∀ next, lineAt? 0 (scope.block.guard.closing ++ '\n' :: next) =
              some (⟨.closes .final, comment, ⟨0, Text.size scope.block.guard.closing⟩⟩,
                '\n' :: next) := by
  obtain ⟨finders, forest, hScans, rfl⟩ := exists_scans_of_ofText h
  have hConditions := hScans.isOf.isCondition
  refine ⟨forest, hScans.isOf, ?_, ?_⟩
  · intro before placed after hSplit hOpens
    replace hSplit : settings.handsOut raw finders forest = before ++ placed :: after := hSplit
    have hMem : placed ∈ settings.handsOut raw finders forest := by
      rw [hSplit]
      exact List.mem_append_right _ List.mem_cons_self
    obtain ⟨scope, hScope, rfl⟩ := exists_scope_of_opens hScans hMem hOpens
    have hCondition := hConditions scope hScope
    refine ⟨scope, hScope, rfl, after_ne_nil_of_opens hScans hSplit hOpens,
      functions_of_opens hScans hSplit, Guard.readsBack_iff hCondition, ?_⟩
    intro hLast
    exact ⟨hScans.isOf.exists_line_of_getLast? hScope hLast,
      Guard.lineAt?_opening_of_joins hCondition hLast⟩
  · intro placed hMem hCloses
    obtain ⟨scope, hScope, rfl⟩ := exists_scope_of_closes hScans hMem hCloses
    exact ⟨scope, hScope, rfl, Guard.exists_lineAt?_closing (hConditions scope hScope)⟩

/-- A header with a condition of two lines and an alternative. -/
def continued : Text :=
  "#if A && \\\n B\nenum x { a };\n#else\nenum y { b };\n#endif\n".toList

/-- The guard of that header. -/
def continuedGuard : Guard := ⟨.expression, "A && \\\n B".toList⟩

/-- The items of that header behind its first opening line, up to the second one. -/
def continuedBetween : List Placed :=
  [⟨14, .entity (.enumeration ⟨"x".toList, "enum x".toList, [.member "a".toList], ⟨14, 27⟩⟩)⟩,
    ⟨28, .guard ⟨continuedGuard.closing, true⟩⟩]

/-- The items of that header behind its second opening line. -/
def continuedAfter : List Placed :=
  [⟨34, .entity (.enumeration ⟨"y".toList, "enum y".toList, [.member "b".toList], ⟨34, 47⟩⟩)⟩,
    ⟨48, .guard ⟨continuedGuard.complement.closing, true⟩⟩]

/-- The items of that header. -/
def continuedItems : List Placed :=
  ⟨0, .guard ⟨continuedGuard.opening, false⟩⟩ :: (continuedBetween ++
    ⟨28, .guard ⟨continuedGuard.complement.opening, false⟩⟩ :: continuedAfter)

theorem ofText_continued :
    ofText continued {} = .ok ⟨Comment.strip continued, continuedItems⟩ := by
  obtain ⟨finders, hFinders⟩ : ∃ finders, ({} : Settings).finders = .ok finders :=
    exists_finders (by decide)
  refine ofText_of_ascending hFinders ?_ ?_ ?_ (by decide)
  · cases hFinders
    decide +kernel
  · cases hFinders
    decide +kernel
  · unfold Placed.Ascending
    decide

/-- Both opening lines of that header are read back, whatever follows them. -/
theorem guards_read_continued :
    ∃ header, ofText continued {} = .ok header ∧
      header.items = ⟨0, .guard ⟨continuedGuard.opening, false⟩⟩ :: (continuedBetween ++
        ⟨28, .guard ⟨continuedGuard.complement.opening, false⟩⟩ :: continuedAfter) ∧
      continuedGuard.ReadsBack ∧ continuedGuard.complement.ReadsBack := by
  obtain ⟨forest, _, hOpening, _⟩ := guards_read_of_ofText ofText_continued
  have hReads : ∀ (guard : Guard) before offset after,
      continuedItems = before ++ ⟨offset, .guard ⟨guard.opening, false⟩⟩ :: after →
      guard.opening.getLast? ≠ some '\\' → guard.ReadsBack := by
    intro guard before offset after hSplit hLast
    obtain ⟨scope, _, hLine, _, _, hRead, _⟩ := hOpening before _ after hSplit rfl
    have hText : guard.opening = scope.block.guard.opening := by
      have hItem := congrArg Placed.item hLine
      simpa [Scope.openingLine] using hItem
    rw [← Guard.opening_injective hText] at hRead
    exact hRead.mpr hLast
  refine ⟨_, ofText_continued, rfl, ?_, ?_⟩
  · exact hReads continuedGuard [] 0 _ rfl (by decide)
  · exact hReads continuedGuard.complement (_ :: continuedBetween) 28 _ rfl (by decide)

/-- A header with a condition whose second line is blank. -/
def trailing : Text := "#if A \\\n\nenum e { X };\n#endif\n".toList

/-- The guard of that header, whose condition ends at the backslash. -/
def trailingGuard : Guard := ⟨.expression, "A \\".toList⟩

/-- The items of that header behind its opening line. -/
def trailingAfter : List Placed :=
  [⟨9, .entity (.enumeration ⟨"e".toList, "enum e".toList, [.member "X".toList], ⟨9, 22⟩⟩)⟩,
    ⟨23, .guard ⟨trailingGuard.closing, true⟩⟩]

/-- The items of that header. -/
def trailingItems : List Placed := ⟨0, .guard ⟨trailingGuard.opening, false⟩⟩ :: trailingAfter

theorem ascending_trailingItems : Placed.Ascending trailingItems := by
  unfold Placed.Ascending
  decide

theorem ofText_trailing : ofText trailing {} = .ok ⟨Comment.strip trailing, trailingItems⟩ := by
  obtain ⟨finders, hFinders⟩ : ∃ finders, ({} : Settings).finders = .ok finders :=
    exists_finders (by decide)
  refine ofText_of_ascending hFinders ?_ ?_ ascending_trailingItems (by decide)
  · cases hFinders
    decide +kernel
  · cases hFinders
    decide +kernel

/-- The opening line of that header takes in the first line of the function behind it. -/
theorem opening_of_trailing_absorbs :
    ∃ header next line rest, ofText trailing {} = .ok header ∧
      header.items = ⟨0, .guard ⟨trailingGuard.opening, false⟩⟩ :: trailingAfter ∧
      ¬ trailingGuard.ReadsBack ∧
      Placed.functions {} header.items = trailingGuard.opening ++ '\n' :: next ∧
      lineAt? 0 (Placed.functions {} header.items) = some (line, rest) ∧
      line.span.stop = Text.size (trailingGuard.opening ++ '\n' :: (logicalLine next).1) := by
  have hHead : ∀ c ∈ trailingGuard.condition.head?, Text.isSpaceOrTab c = false := by
    intro c hc
    obtain rfl : 'A' = c := Option.some.inj hc
    decide
  have hCondition : IsCondition trailingGuard.condition := ⟨hHead, by decide, by decide⟩
  have hLast : trailingGuard.opening.getLast? = some '\\' := by decide
  have hReads : ¬ trailingGuard.ReadsBack := by
    rw [Guard.readsBack_iff hCondition, not_not]
    exact hLast
  have hFunctions : Placed.functions {} trailingItems = trailingGuard.opening ++
      '\n' :: Text.join ['\n'] (trailingAfter.map (·.item.output {})) := by
    rw [Placed.functions, Placed.ordered, Placed.sorted_of_ascending ascending_trailingItems]
    rfl
  have hRead := Guard.lineAt?_opening_of_joins hCondition hLast
    (Text.join ['\n'] (trailingAfter.map (·.item.output {})))
  rw [← hFunctions] at hRead
  exact ⟨_, _, _, _, ofText_trailing, rfl, hReads, hFunctions, hRead, rfl⟩

end ScannedHeader

end ValueNames
