import ValueNames.Entity
import ValueNames.Enumeration.Declaration
import ValueNames.MacroGroup.Definition

/-!
# Finders

A finder looks for entities in a region of a source. A region is a span of
the source, and the spans of what is found are offsets in the source again.

## Main results

* `regionText_eq_ok_iff` — a region has a text exactly when it cuts a piece
  out of the source.
-/

namespace ValueNames

/-- Finds the entities that lie entirely inside a region of a source. -/
structure Finder where
  name : Text
  find : Text → Span → Except Fault (List Entity)

/-- The text of a region of a source. -/
def regionText (source : Text) (region : Span) : Except Fault Text :=
  match Text.slice? source region.start region.stop with
  | some text => .ok text
  | none => .error (.outOfText region)

theorem regionText_eq_ok_iff {source text : Text} {region : Span} :
    regionText source region = .ok text ↔
      Text.slice? source region.start region.stop = some text := by
  unfold regionText
  split <;> simp_all

namespace Finder

/-- The enumeration of a declaration found in a region that starts at `base`. -/
def enumerationOf (base : Nat) : Enumeration.Declaration × Span → Except Fault Entity
  | (found, span) =>
      (Enumeration.ofParts found.tag found.body found.typedefName (span.shift base)).map
        .enumeration

/-- Finds enumerations. -/
def enumerations : Finder where
  name := "enum".toList
  find source region :=
    (regionText source region).bind fun text =>
      (Enumeration.declaration.search text).mapM (enumerationOf region.start)

/-- The definitions of macros whose names begin with `lead` in a text that starts at `base`. -/
def definitionsIn (lead : Text) (base : Nat) (text : Text) : List MacroDefinition :=
  ((MacroGroup.definition lead).search text).map fun ((name, value), span) =>
    ⟨name, value, span.shift base⟩

/-- Finds the group of the macros whose names begin with `lead`, which must not be empty. -/
def macroGroup (lead : Text) : Except Fault Finder :=
  if lead = [] then .error .emptyMacroLead
  else
    .ok {
      name := "macro_group".toList
      find source region :=
        (regionText source region).map fun text =>
          ((MacroGroup.ofDefinitions? lead
            (definitionsIn lead region.start text)).map Entity.macroGroup).toList
    }

end Finder

end ValueNames
