import ValueNames.Proofs.Header.Enumerations
import ValueNames.Proofs.Header.GuardLines
import ValueNames.Proofs.Output.Compiled

/-!
# Where the functions of a header are compiled

The function generated for an enumeration is written between the guard lines of the scopes that
hold its declaration. In the written text it is compiled exactly where the header compiles the
declaration, as long as all that is written ahead of it stands alone. Two things do not: an
opening line that ends with a backslash takes in the line behind it, and the table of an
enumeration that ends inside a conditional block leaves a condition open that is closed nowhere.

## Main results

* `functions_eq_of_split` — what is written for items, around one of them.
* `compiled_of_ofText` — the pairs of guard lines around an enumeration are those of the scopes
  that hold its declaration, and its function is compiled exactly where the declaration is.
-/

namespace ValueNames

open Scan Conditional

namespace ScannedHeader

variable {raw : Text} {settings : Settings} {finders : List Finder} {forest : Forest}

/-- The items of a header are entities and lines of guards that are read off directive lines. -/
theorem isScanned_of_mem_handsOut (hScans : settings.Scans raw finders forest) {placed : Placed}
    (hMem : placed ∈ settings.handsOut raw finders forest) : placed.item.IsScanned := by
  cases hItem : placed.item with
  | entity found => exact .entity found
  | guard line =>
      have hGuard : placed.item.isEntity = false := by
        rw [hItem]
        rfl
      obtain ⟨scope, hScope, hLine⟩ := eq_line_of_mem_handsOut hScans hMem hGuard
      have hCondition := hScans.isOf.isCondition scope hScope
      rw [← hItem]
      rcases hLine with rfl | rfl
      · exact .opening hCondition
      · exact .closing hCondition

/-- What is written for ordered items: those ahead of one of them, and from that one on. -/
theorem functions_eq_of_split {items before after : List Placed} {placed : Placed}
    (hOrdered : Placed.ordered items = items) (hSplit : items = before ++ placed :: after) :
    Placed.functions settings items = Item.written settings (before.map (·.item)) ++
      Text.join ['\n'] (placed.item.output settings :: after.map (·.item.output settings)) := by
  rw [Placed.functions, hOrdered, hSplit, List.map_append, List.map_cons, Text.join_append_cons,
    Item.written, List.flatMap_map, List.flatMap_map]

/-- A text of some pieces begins with the first of them. -/
theorem exists_join_cons_eq (piece : Text) (others : List Text) :
    ∃ behind, Text.join ['\n'] (piece :: others) = piece ++ behind := by
  cases others with
  | nil => exact ⟨[], (List.append_nil _).symm⟩
  | cons next others => exact ⟨_, Text.join_cons_cons _ _ _⟩

/--
The pairs of guard lines around an enumeration of a header, outermost first, are those of the
scopes that hold its declaration, if guards are written at all levels and no scope straddles the
declaration. If all items ahead of the enumeration stand alone, its function is compiled, in the
text of all functions, exactly where the header compiles the declaration, and in the generated
file where the guard macro is defined besides.
-/
theorem compiled_of_ofText (hGuarded : settings.unguardedOutermost = false)
    {header : ScannedHeader} (h : ofText raw settings = .ok header) :
    header.source = Comment.strip raw ∧
      ∃ forest, Forest.IsOf (directiveLines header.source) forest ∧
        ∀ before offset declared after,
          header.items = before ++ ⟨offset, .entity (.enumeration declared)⟩ :: after →
          (∀ scope ∈ forest.scopes, scope.Clear declared.span) →
          (forest.covering declared.span).Pairwise (fun outer inner =>
            outer.region.start ≤ inner.block.opened.start ∧ inner.closedAt < outer.closedAt) ∧
          Item.Around (before.map (·.item))
            ((forest.covering declared.span).map (·.block.guard)) (after.map (·.item)) ∧
          ((∀ placed ∈ before, placed.item.StandsAlone settings) →
            CompiledWhere (Placed.functions settings header.items)
              (Item.written settings (before.map (·.item)))
              (declared.function settings.enumSentinel)
              (fun holds => compiled holds (directiveLines header.source) declared.span.start) ∧
            (settings.HeadInLines →
              CompiledWhere (outputFileOf settings header.items)
                (fileHead settings ++ Item.written settings (before.map (·.item)))
                (declared.function settings.enumSentinel)
                (fun holds => holds settings.fileGuard &&
                  compiled holds (directiveLines header.source) declared.span.start))) := by
  obtain ⟨finders, forest, hScans, rfl⟩ := exists_scans_of_ofText h
  obtain ⟨found, hFound⟩ := hScans.gathered
  refine ⟨rfl, forest, hScans.isOf, fun before offset declared after hSplit hClear => ?_⟩
  replace hSplit : settings.handsOut raw finders forest =
      before ++ ⟨offset, .entity (.enumeration declared)⟩ :: after := hSplit
  obtain ⟨high, hWithin⟩ := hScans.isOf.within
  obtain ⟨hAround, hPairs⟩ :=
    around_of_clear hGuarded hScans.finders_eq hScans.isOf hFound hSplit hClear
  refine ⟨?_, hPairs, fun hAlone => ?_⟩
  · rw [← hAround]
    exact hWithin.pairwise_enclosing _
  have hScanned : ∀ item ∈ before.map (·.item), item.IsScanned := by
    intro item hItem
    obtain ⟨placed, hPlaced, rfl⟩ := List.mem_map.mp hItem
    refine isScanned_of_mem_handsOut hScans ?_
    rw [hSplit]
    exact List.mem_append_left _ hPlaced
  have hAhead := Item.leavesOpen_written hScanned (List.forall_mem_map.mpr hAlone)
  have hFunction := declared.wholeLines_function settings.enumSentinel
  -- The conditions open ahead of all items stay open behind those that stand before this one.
  have hCondition : ∀ holds, Guard.Lawful holds → ∀ values : List Bool,
      (Item.truths holds values (before.map (·.item))).all id = (values.all id &&
        compiled holds (directiveLines (Comment.strip raw)) declared.span.start) := by
    intro holds hLawful values
    rw [hPairs.truths_eq, List.all_append, Bool.and_comm, List.all_map, List.all_reverse,
      compiled_eq_all_enclosing hScans.isOf hLawful, hAround]
    rfl
  have hOrdered : Placed.ordered (settings.handsOut raw finders forest) =
      settings.handsOut raw finders forest := Placed.ordered_ordered _
  obtain ⟨behind, hBehind⟩ := exists_join_cons_eq (declared.function settings.enumSentinel)
    (after.map (·.item.output settings))
  have hFunctions : Placed.functions settings (settings.handsOut raw finders forest) =
      Item.written settings (before.map (·.item)) ++
        (declared.function settings.enumSentinel ++ behind) := by
    rw [← hBehind]
    exact functions_eq_of_split hOrdered hSplit
  obtain ⟨tail, hFile⟩ := exists_outputFile_eq settings
  constructor
  · show CompiledWhere (Placed.functions settings (settings.handsOut raw finders forest)) _ _ _
    rw [hFunctions]
    exact hAhead.compiledWhere hFunction (fun holds hLawful => hCondition holds hLawful []) behind
  · intro hHead
    show CompiledWhere (outputFile settings
      (Placed.functions settings (settings.handsOut raw finders forest))) _ _ _
    have hWhole : outputFile settings
        (Placed.functions settings (settings.handsOut raw finders forest)) =
          fileHead settings ++ Item.written settings (before.map (·.item)) ++
            (declared.function settings.enumSentinel ++ (behind ++ tail)) := by
      rw [hFile, hFunctions]
      simp only [List.append_assoc]
    rw [hWhole]
    refine ((leavesOpen_fileHead hHead).append hAhead).compiledWhere hFunction ?_ (behind ++ tail)
    intro holds hLawful
    have hGuard := hCondition holds hLawful [holds settings.fileGuard]
    rwa [List.all_cons, List.all_nil, Bool.and_true] at hGuard

/--
In that header the function for the `#else` branch is compiled where its enumeration is: if `A`
is defined and `B` does not hold.
-/
theorem compiled_of_ofText_branching :
    ({} : Settings).unguardedOutermost = false ∧ ({} : Settings).HeadInLines ∧
      ∃ forest, ofText branching {} = .ok ⟨Comment.strip branching, branchingItems⟩ ∧
        Forest.IsOf (directiveLines (Comment.strip branching)) forest ∧
        branchingItems =
          branchingBefore ++ ⟨35, .entity (.enumeration branchingEnumeration)⟩ :: branchingAfter ∧
        (∀ scope ∈ forest.scopes, scope.Clear branchingEnumeration.span) ∧
        (∀ placed ∈ branchingBefore, placed.item.StandsAlone {}) ∧
        Item.Around (branchingBefore.map (·.item))
          ((forest.covering branchingEnumeration.span).map (·.block.guard))
          (branchingAfter.map (·.item)) ∧
        ∀ holds, Guard.Lawful holds →
          compiled holds (directiveLines (Placed.functions {} branchingItems))
              (Text.size (Item.written {} (branchingBefore.map (·.item)))) =
            (holds branchingOuter && !holds branchingInner) ∧
          compiled holds (directiveLines (outputFileOf {} branchingItems))
              (Text.size (fileHead {} ++ Item.written {} (branchingBefore.map (·.item)))) =
            (holds (Settings.fileGuard {}) && (holds branchingOuter && !holds branchingInner)) := by
  have hGuarded : ({} : Settings).unguardedOutermost = false := rfl
  have hHead : ({} : Settings).HeadInLines := ⟨by decide, by decide, by decide⟩
  have hLines : directiveLines (Comment.strip branching) =
      [⟨.opens .defined, "A".toList, ⟨0, 8⟩⟩, ⟨.opens .expression, "B".toList, ⟨9, 14⟩⟩,
        ⟨.closes .alternative, [], ⟨29, 34⟩⟩, ⟨.closes .final, [], ⟨49, 55⟩⟩,
        ⟨.closes .final, [], ⟨56, 62⟩⟩] := by decide +kernel
  obtain ⟨_, forest, hForest, hCompiled⟩ := compiled_of_ofText hGuarded ofText_branching
  have hClear : ∀ scope ∈ forest.scopes, scope.Clear branchingEnumeration.span := by
    refine hForest.clear ?_
    show ∀ line ∈ directiveLines (Comment.strip branching), _
    rw [hLines]
    decide
  have hAlone : ∀ placed ∈ branchingBefore, placed.item.StandsAlone {} := by decide +kernel
  obtain ⟨_, hAround, hWritten⟩ :=
    hCompiled branchingBefore 35 branchingEnumeration branchingAfter rfl hClear
  obtain ⟨hFunctions, hFile⟩ := hWritten hAlone
  have hSource : ∀ holds, compiled holds (directiveLines (Comment.strip branching)) 35 =
      (holds branchingOuter && !holds branchingInner) := by
    intro holds
    rw [hLines, Bool.and_comm]
    simp [compiled, truths, branchingOuter, branchingInner]
  refine ⟨hGuarded, hHead, forest, ofText_branching, hForest, rfl, hClear, hAlone, hAround, ?_⟩
  intro holds hLawful
  have hStart := hFunctions.start_eq holds hLawful
  have hStartInFile := (hFile hHead).start_eq holds hLawful
  simp only [branchingEnumeration] at hStart hStartInFile
  exact ⟨hStart.trans (hSource holds), by rw [hStartInFile, hSource]⟩

/-- The enumeration of the header whose condition ends with a backslash. -/
def trailingEnumeration : Enumeration where
  name := "e".toList
  typeName := "enum e".toList
  body := [.member "X".toList]
  span := ⟨9, 22⟩

/-- What is written for that header: the opening line, the function and the closing line. -/
theorem functions_trailingItems : Placed.functions {} trailingItems =
    Item.written {} [.opening trailingGuard] ++
      (trailingEnumeration.function ({} : Settings).enumSentinel ++
        '\n' :: trailingGuard.closing) := by
  have hSplit : trailingItems = [⟨0, .opening trailingGuard⟩] ++
      ⟨9, .entity (.enumeration trailingEnumeration)⟩ :: [⟨23, .closing trailingGuard⟩] := rfl
  have hOrdered := Placed.ordered_of_ascending ascending_trailingItems (by decide)
  have hWritten : Placed.functions {} trailingItems = _ := functions_eq_of_split hOrdered hSplit
  rwa [List.map_singleton, List.map_singleton, Text.join_cons_cons] at hWritten

/-- A header with an enumeration that ends inside a conditional block, and another one. -/
def straddled : Text :=
  "enum x \x7b\nA,\n#ifdef P\nB \x7d;\n#else\nC \x7d;\n#endif\nenum e { D };\n".toList

/-- The first enumeration of that header. -/
def straddlingEnumeration : Enumeration where
  name := "x".toList
  typeName := "enum x".toList
  body := [.member "A".toList, .directive "#ifdef P".toList, .member "B".toList]
  span := ⟨0, 25⟩

/-- The second enumeration of that header. -/
def straddledEnumeration : Enumeration where
  name := "e".toList
  typeName := "enum e".toList
  body := [.member "D".toList]
  span := ⟨44, 57⟩

/-- The items of that header. -/
def straddledItems : List Placed :=
  [⟨0, .entity (.enumeration straddlingEnumeration)⟩,
    ⟨44, .entity (.enumeration straddledEnumeration)⟩]

theorem ascending_straddledItems : Placed.Ascending straddledItems := by
  unfold Placed.Ascending
  decide

/-- What is written for that header: the two functions. -/
theorem functions_straddledItems : Placed.functions {} straddledItems =
    Item.written {} [.entity (.enumeration straddlingEnumeration)] ++
      (straddledEnumeration.function ({} : Settings).enumSentinel ++ []) := by
  have hSplit : straddledItems = [⟨0, .entity (.enumeration straddlingEnumeration)⟩] ++
      ⟨44, .entity (.enumeration straddledEnumeration)⟩ :: [] := rfl
  have hOrdered := Placed.ordered_of_ascending ascending_straddledItems (by decide)
  rw [List.append_nil]
  exact functions_eq_of_split hOrdered hSplit

theorem ofText_straddled : ofText straddled {} = .ok ⟨Comment.strip straddled, straddledItems⟩ := by
  obtain ⟨finders, hFinders⟩ : ∃ finders, ({} : Settings).finders = .ok finders :=
    exists_finders (by decide)
  refine ofText_of_ascending hFinders ?_ ?_ ascending_straddledItems (by decide)
  · cases hFinders
    decide +kernel
  · cases hFinders
    decide +kernel

/--
Without the condition on the items ahead the function of an enumeration need not be compiled
where the declaration is. Behind an opening line that ends with a backslash it stands in that
directive line. Behind the table of an enumeration that ends inside a conditional block it is
compiled under the condition of that block, though the header declares the enumeration under no
condition.
-/
theorem functions_compiled_apart :
    (∃ forest, ofText trailing {} = .ok ⟨Comment.strip trailing, trailingItems⟩ ∧
      Forest.IsOf (directiveLines (Comment.strip trailing)) forest ∧
      trailingItems = [⟨0, .opening trailingGuard⟩] ++
        ⟨9, .entity (.enumeration trailingEnumeration)⟩ :: [⟨23, .closing trailingGuard⟩] ∧
      (∀ scope ∈ forest.scopes, scope.Clear trailingEnumeration.span) ∧
      (∀ holds, compiled holds (directiveLines (Comment.strip trailing)) 9 = holds trailingGuard) ∧
      ∃ behind, Placed.functions {} trailingItems =
          Item.written {} [.opening trailingGuard] ++
            (trailingEnumeration.function ({} : Settings).enumSentinel ++ behind) ∧
        ∃ line ∈ directiveLines (Placed.functions {} trailingItems),
          line.span.start < Text.size (Item.written {} [.opening trailingGuard]) ∧
          Text.size (Item.written {} [.opening trailingGuard]) < line.span.stop) ∧
    ∃ forest, ofText straddled {} = .ok ⟨Comment.strip straddled, straddledItems⟩ ∧
      Forest.IsOf (directiveLines (Comment.strip straddled)) forest ∧
      straddledItems = [⟨0, .entity (.enumeration straddlingEnumeration)⟩] ++
        ⟨44, .entity (.enumeration straddledEnumeration)⟩ :: [] ∧
      (∀ scope ∈ forest.scopes, scope.Clear straddledEnumeration.span) ∧
      (∀ holds, compiled holds (directiveLines (Comment.strip straddled)) 44 = true) ∧
      ∃ behind, Placed.functions {} straddledItems =
          Item.written {} [.entity (.enumeration straddlingEnumeration)] ++
            (straddledEnumeration.function ({} : Settings).enumSentinel ++ behind) ∧
        ∀ holds, compiled holds (directiveLines (Placed.functions {} straddledItems))
            (Text.size (Item.written {} [.entity (.enumeration straddlingEnumeration)])) =
          holds ⟨.defined, "P".toList⟩ := by
  constructor
  · have hBalanced : Balanced (directiveLines (Comment.strip trailing)) := by decide +kernel
    obtain ⟨forest, hForest⟩ := Forest.exists_isOf_iff.mpr hBalanced
    have hLines : directiveLines (Comment.strip trailing) =
        [⟨.opens .expression, "A \\".toList, ⟨0, 8⟩⟩, ⟨.closes .final, [], ⟨23, 29⟩⟩] := by
      decide +kernel
    have hClear : ∀ scope ∈ forest.scopes, scope.Clear trailingEnumeration.span :=
      hForest.clear (by rw [hLines]; decide)
    refine ⟨forest, ofText_trailing, hForest, rfl, hClear, ?_, _, functions_trailingItems, ?_⟩
    · intro holds
      rw [hLines]
      simp [compiled, truths, trailingGuard]
    · rw [functions_trailingItems]
      decide +kernel
  · have hBalanced : Balanced (directiveLines (Comment.strip straddled)) := by decide +kernel
    obtain ⟨forest, hForest⟩ := Forest.exists_isOf_iff.mpr hBalanced
    have hLines : directiveLines (Comment.strip straddled) =
        [⟨.opens .defined, "P".toList, ⟨12, 20⟩⟩, ⟨.closes .alternative, [], ⟨26, 31⟩⟩,
          ⟨.closes .final, [], ⟨37, 43⟩⟩] := by
      decide +kernel
    have hClear : ∀ scope ∈ forest.scopes, scope.Clear straddledEnumeration.span :=
      hForest.clear (by rw [hLines]; decide)
    have hWritten :
        directiveLines (Item.written {} [.entity (.enumeration straddlingEnumeration)] ++
          (straddledEnumeration.function ({} : Settings).enumSentinel ++ [])) =
        [⟨.opens .defined, "P".toList, ⟨88, 96⟩⟩] := by decide +kernel
    have hSize :
        Text.size (Item.written {} [.entity (.enumeration straddlingEnumeration)]) = 298 := by
      decide +kernel
    refine ⟨forest, ofText_straddled, hForest, rfl, hClear, ?_, _, functions_straddledItems, ?_⟩
    · intro holds
      rw [hLines]
      simp [compiled, truths]
    · intro holds
      rw [functions_straddledItems, hWritten, hSize]
      simp [compiled, truths]

end ScannedHeader

end ValueNames
