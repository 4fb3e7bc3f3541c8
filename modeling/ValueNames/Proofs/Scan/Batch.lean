import ValueNames.Output.Function
import ValueNames.Proofs.Scan.Collect

/-!
# A scan as a batch

A scan hands out its items block by block. The same items come out if the
forest of the source is known beforehand, what is found in its parts is put
together, and all of it is ordered once.

## Main results

* `exists_collect_eq_batch` — the items handed out one by one are the batch,
  in ascending order, and ordering them again changes nothing.
-/

namespace ValueNames.Scan

namespace Setup

variable {setup : Setup}

/--
What is found in a source as a batch: the branches of the forest, each after the
branches inside it, and the text outside all blocks, in the order of the parts.
-/
def batch (setup : Setup) (forest : Forest) : List Placed :=
  Placed.ordered ((forest.parts setup.source 0 none).flatMap setup.itemsOf)

/-- Finders that never fail do not fail when the parts of the source are looked at. -/
theorem callsSucceed_of_findsEverywhere (h : setup.FindsEverywhere) : setup.CallsSucceed := by
  intro part hPart _ finder hFinder
  have hFits := Outline.fits_of_mem_parts Outline.fits_initial
    (Conditional.spaced_directiveLines setup.source) (Nat.zero_le _) hPart
  obtain ⟨text, hText⟩ := hFits.exists_text
  exact h finder hFinder part.region text hText

end Setup

/-! ## The batch -/

/--
With finders that never fail, a scan of a balanced source hands out the batch of
its forest. Its items are in ascending order, and the generator, which orders
them once more, prints them as they come.
-/
theorem exists_collect_eq_batch {setup : Setup} (hInside : setup.FindsInside)
    (hEverywhere : setup.FindsEverywhere)
    (hBalanced : Conditional.Balanced (Conditional.directiveLines setup.source)) :
    ∃ forest items, Forest.IsOf (Conditional.directiveLines setup.source) forest ∧
      (Cursor.start setup).collect = .ok items ∧ items = setup.batch forest ∧
      items.Pairwise (fun a b => a.offset ≤ b.offset) ∧ Placed.ordered items = items ∧
      ∀ settings : Settings, Placed.functions settings items =
        Text.join ['\n'] (items.map fun placed => placed.item.output settings) := by
  obtain ⟨forest, hForest⟩ := Forest.exists_isOf_iff.mpr hBalanced
  obtain ⟨found, hFound⟩ :=
    Setup.exists_gather hInside (Setup.callsSucceed_of_findsEverywhere hEverywhere)
  have hCollect : (Cursor.start setup).collect = .ok (Placed.ordered found) := by
    rw [collect_eq_gather hInside, hFound, (Outline.fault?_eq_none_iff _).mpr hBalanced]
    rfl
  rw [Outline.parts_eq_of_isOf hForest] at hFound
  obtain rfl := Setup.gather_eq hInside hFound
  have hOrdered := Placed.ordered_ordered
    ((forest.parts setup.source 0 none).flatMap setup.itemsOf)
  refine ⟨forest, _, hForest, hCollect, rfl, Placed.ascending_ordered _, hOrdered, ?_⟩
  intro settings
  rw [Placed.functions, hOrdered]

/-- The batch of a source with nested blocks. -/
theorem exists_collect_nested :
    Setup.nested.FindsInside ∧ Setup.nested.FindsEverywhere ∧
      Conditional.Balanced (Conditional.directiveLines Setup.nested.source) ∧
      ∃ forest items,
        Forest.IsOf (Conditional.directiveLines Setup.nested.source) forest ∧
        (Cursor.start Setup.nested).collect = .ok items ∧ items = Setup.nested.batch forest ∧
        items.Pairwise (fun a b => a.offset ≤ b.offset) ∧ Placed.ordered items = items ∧
        ∀ settings : Settings, Placed.functions settings items =
          Text.join ['\n'] (items.map fun placed => placed.item.output settings) :=
  ⟨findsInside_nested, findsEverywhere_nested, by decide +kernel,
    exists_collect_eq_batch findsInside_nested findsEverywhere_nested (by decide +kernel)⟩

end ValueNames.Scan
