import ValueNames.Proofs.Comment.Origin
import ValueNames.Proofs.Finder
import ValueNames.Proofs.Scan.Collect

/-!
# Which headers are accepted

Unless a finder fails, a header is accepted exactly when its conditional blocks
are balanced. Where they are not, the fault names the line of the raw text on
which the first stray closing directive stands or, without one, the line of the
branch that is left open innermost.

## Main results

* `ofText_outcome` — which texts are accepted, and what is reported for the others.
-/

namespace ValueNames

open Scan Conditional

/-- The scan of a raw text with some finders. -/
def Settings.setup (settings : Settings) (finders : List Finder) (raw : Text) : Setup :=
  ⟨Comment.strip raw, finders, settings.unguardedOutermost⟩

namespace ScannedHeader

variable {raw : Text} {settings : Settings} {finders : List Finder}

theorem exists_finders (h : settings.macroLead ≠ []) :
    ∃ finders, settings.finders = .ok finders := by
  have hMacros : ∃ macros, Finder.macroGroup settings.macroLead = .ok macros := by
    rw [Finder.macroGroup, if_neg h]
    exact ⟨_, rfl⟩
  obtain ⟨macros, hMacros⟩ := hMacros
  exact ⟨_, by rw [Settings.finders, hMacros]; rfl⟩

theorem ofText_eq (h : settings.finders = .ok finders) :
    ofText raw settings = (Cursor.start (settings.setup finders raw)).collect.map fun items =>
      ⟨Comment.strip raw, items⟩ := by
  rw [ofText, h]
  rfl

/-- Where no call of a finder fails, only the nesting decides about a header. -/
theorem collect_of_callsSucceed (hFinders : settings.finders = .ok finders)
    (hCalls : (settings.setup finders raw).CallsSucceed) :
    ∃ found, (Cursor.start (settings.setup finders raw)).collect =
      checked (State.initial.outline.fault? (Comment.strip raw)
        (directiveLines (Comment.strip raw))) (Placed.ordered found) := by
  have hInside : (settings.setup finders raw).FindsInside :=
    findsInside_finders hFinders _ _
  obtain ⟨found, hFound⟩ := Setup.exists_gather hInside hCalls
  refine ⟨found, ?_⟩
  rw [collect_eq_gather hInside, hFound]
  rfl

/-- The scan of an accepted header ends with no branch open. -/
theorem ends_of_ofText (hFinders : settings.finders = .ok finders) {header : ScannedHeader}
    (h : ofText raw settings = .ok header) :
    ∃ last, (Cursor.start (settings.setup finders raw)).Ends header.items last ∧
      last.depth = 0 := by
  rw [ofText_eq hFinders, collect_eq_run] at h
  obtain ⟨items, hItems, rfl⟩ := map_eq_ok_iff.mp h
  obtain ⟨final, hFinal, rfl⟩ := map_eq_ok_iff.mp hItems
  have hEnds : (Cursor.start (settings.setup finders raw)).Fulfils (State.initial.run
      (settings.setup finders raw) (directiveLines (settings.setup finders raw).source)) :=
    Cursor.fulfils_run rfl
  rw [hFinal] at hEnds
  refine ⟨_, hEnds, ?_⟩
  show final.blocks.length = 0
  rw [State.run_blocks hFinal]
  rfl

/--
Unless a finder fails, a header is accepted exactly when its directive lines are
balanced, and its scan ends with no branch open. Otherwise the fault is one of
the nesting, at the line of the raw text that holds the first closing directive
without an open branch or, if there is none, the line that opened the innermost
branch left open.
-/
theorem ofText_outcome (hLead : settings.macroLead ≠ [])
    (hCalls : ∀ finders, settings.finders = .ok finders →
      (settings.setup finders raw).CallsSucceed) :
    ((∃ header, ofText raw settings = .ok header) ↔
      Balanced (directiveLines (Comment.strip raw))) ∧
    (∀ header, ofText raw settings = .ok header → ∃ finders last,
      settings.finders = .ok finders ∧
        (Cursor.start (settings.setup finders raw)).Ends header.items last ∧ last.depth = 0) ∧
    (∀ line, openLines [] (directiveLines (Comment.strip raw)) = .error line →
      ∃ closer offset, line.directive = .closes closer ∧ line.WrittenAt raw offset ∧
        ofText raw settings = .error (.strayCloser (Text.lineOf raw offset) closer)) ∧
    ∀ line outer, openLines [] (directiveLines (Comment.strip raw)) = .ok (line :: outer) →
      ∃ guard offset, line.WrittenAt raw offset ∧
        ofText raw settings = .error (.neverClosed (Text.lineOf raw offset) guard) := by
  obtain ⟨finders, hFinders⟩ := exists_finders hLead
  obtain ⟨found, hCollect⟩ := collect_of_callsSucceed hFinders (hCalls finders hFinders)
  have hStands := (spaced_directiveLines (Comment.strip raw)).standsIn
  have hFault := Outline.fault?_eq (Comment.strip raw) (directiveLines (Comment.strip raw))
    Outline.map_opened_initial
  refine ⟨?_, fun header hHeader => ⟨finders, ?_⟩, ?_, ?_⟩
  · rw [← Outline.fault?_eq_none_iff (Comment.strip raw), ofText_eq hFinders, hCollect]
    cases State.initial.outline.fault? (Comment.strip raw)
        (directiveLines (Comment.strip raw)) with
    | none => exact ⟨fun _ => rfl, fun _ => ⟨_, rfl⟩⟩
    | some fault =>
        constructor
        · rintro ⟨header, hHeader⟩
          cases hHeader
        · intro hNone
          cases hNone
  · obtain ⟨last, hEnds, hDepth⟩ := ends_of_ofText hFinders hHeader
    exact ⟨last, hFinders, hEnds, hDepth⟩
  · intro line hStray
    rw [hStray] at hFault
    obtain ⟨closer, hCloses, hStrayFault⟩ := hFault
    obtain ⟨offset, hWritten⟩ :=
      (hStands line (mem_of_openLines_error hStray)).exists_writtenAt
    refine ⟨closer, offset, hCloses, hWritten, ?_⟩
    rw [ofText_eq hFinders, hCollect, hStrayFault, hWritten.lineOf_eq]
    rfl
  · intro line outer hOpen
    rw [hOpen] at hFault
    obtain ⟨guard, hOpenFault⟩ := hFault
    have hMem : line ∈ directiveLines (Comment.strip raw) := by
      rcases mem_of_openLines_ok hOpen List.mem_cons_self with hMem | hMem
      · cases hMem
      · exact hMem
    obtain ⟨offset, hWritten⟩ := (hStands line hMem).exists_writtenAt
    refine ⟨guard, offset, hWritten, ?_⟩
    rw [ofText_eq hFinders, hCollect, hOpenFault, hWritten.lineOf_eq]
    rfl

/-- A header whose `#else` branch behind a comment is never closed. -/
def unclosed : Text := "/* A\n */\n#if B\n/* C\n */ #else\nenum d { e };\n".toList

/-- The `#else` line of that header, as it stands in the stripped text. -/
def unclosedLine : DirectiveLine := ⟨.closes .alternative, [], ⟨9, 15⟩⟩

/-- The fault of that header is at its `#else` line, the fifth one. -/
theorem ofText_outcome_unclosed :
    ({} : Settings).macroLead ≠ [] ∧
      (∀ finders, ({} : Settings).finders = .ok finders →
        (({} : Settings).setup finders unclosed).CallsSucceed) ∧
      openLines [] (directiveLines (Comment.strip unclosed)) = .ok [unclosedLine] ∧
      ∃ guard offset, unclosedLine.WrittenAt unclosed offset ∧ Text.lineOf unclosed offset = 5 ∧
        ofText unclosed {} = .error (.neverClosed 5 guard) := by
  have hLead : ({} : Settings).macroLead ≠ [] := by decide
  have hCalls : ∀ finders, ({} : Settings).finders = .ok finders →
      (({} : Settings).setup finders unclosed).CallsSucceed := by
    intro finders hFinders
    apply Setup.callsSucceed_of_all
    cases hFinders
    decide +kernel
  have hLines : directiveLines (Comment.strip unclosed) =
      [⟨.opens .expression, "B".toList, ⟨2, 7⟩⟩, unclosedLine] := by decide +kernel
  have hOpen : openLines [] (directiveLines (Comment.strip unclosed)) = .ok [unclosedLine] := by
    rw [hLines]
    rfl
  obtain ⟨guard, offset, hWritten, hFault⟩ := (ofText_outcome hLead hCalls).2.2.2 _ _ hOpen
  have hFifth : Text.lineOf unclosed offset = 5 := by
    have hStripped : unclosedLine.span.line (Comment.strip unclosed) = 5 := by decide +kernel
    rw [← hWritten.lineOf_eq, hStripped]
  rw [hFifth] at hFault
  exact ⟨hLead, hCalls, hOpen, guard, offset, hWritten, hFifth, hFault⟩

end ScannedHeader

end ValueNames
