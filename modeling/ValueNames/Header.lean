import ValueNames.Comment
import ValueNames.Scan.Cursor
import ValueNames.Settings.Basic

/-!
# Scanned headers

A header is scanned without its comments, for enumerations first and then for
the group of macros that the settings ask for.
-/

namespace ValueNames

/-- The result of scanning a header. -/
structure ScannedHeader where
  /-- The text without comments, in which the offsets of the items count. -/
  source : Text
  /-- Guard lines and entities by offset. -/
  items : List Placed

/-- The finders that the settings ask for. -/
def Settings.finders (settings : Settings) : Except Fault (List Finder) :=
  (Finder.macroGroup settings.macroLead).map fun macros => [Finder.enumerations, macros]

namespace ScannedHeader

/-- Scans the text of a header. -/
def ofText (text : Text) (settings : Settings) : Except Fault ScannedHeader :=
  let source := Comment.strip text
  settings.finders.bind fun finders =>
    (Scan.Cursor.start ⟨source, finders, settings.unguardedOutermost⟩).collect.map fun items =>
      ⟨source, items⟩

/-- The number of entities found. -/
def entityCount (header : ScannedHeader) : Nat := Placed.entityCount header.items

/-- The line of an item, counted from one. -/
def lineOf (header : ScannedHeader) (placed : Placed) : Nat :=
  Text.lineOf header.source placed.offset

end ScannedHeader

end ValueNames
