import ValueNames.Text.Lines

/-!
# Spans

A span is a range of byte offsets in a text. Offsets fit 64-bit machine words
wherever a text can be stored, and `shift?` says when a moved span still does.

## Main results

* `shift?_eq_some_iff` — moving a span adds to both ends, and fails exactly
  when the far end leaves the 64-bit range or the near one does.
-/

namespace ValueNames

/-- A range of byte offsets: from `start` up to and without `stop`. -/
structure Span where
  start : Nat
  stop : Nat
deriving DecidableEq, Repr

namespace Span

/-- Moves both ends up by `base`. -/
def shift (span : Span) (base : Nat) : Span := ⟨span.start + base, span.stop + base⟩

/-- Moves both ends up by `base`, if they still fit a machine word. -/
def shift? (span : Span) (base : Nat) : Option Span :=
  if span.start + base < UInt64.size ∧ span.stop + base < UInt64.size then some (span.shift base)
  else none

theorem shift?_eq_some_iff {span moved : Span} {base : Nat} :
    span.shift? base = some moved ↔
      moved = span.shift base ∧ moved.start < UInt64.size ∧ moved.stop < UInt64.size := by
  unfold shift?
  constructor
  · intro h
    split at h
    · rename_i hFits
      cases h
      exact ⟨rfl, hFits⟩
    · simp at h
  · rintro ⟨rfl, hStart, hStop⟩
    exact if_pos ⟨hStart, hStop⟩

/-- The written form, `start..stop`. -/
def render (span : Span) : Text := Text.ofNat span.start ++ "..".toList ++ Text.ofNat span.stop

/-- The line on which the span starts. -/
def line (span : Span) (source : Text) : Nat := Text.lineOf source span.start

end Span

end ValueNames
