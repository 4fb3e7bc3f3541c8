import ValueNames.Header
import ValueNames.Json.Printer
import ValueNames.Text.Lines

/-!
# Listings

What was found in a header, for people as an indented text and for programs as
JSON. In the text, a guard indents the rows up to the line that closes it. In
the JSON form, the members of every object are in the order of their names.
-/

namespace ValueNames

/-! ## As a text -/

/-- The depth of the row of an item after rows that end at `depth`, and the depth after it. -/
def Item.depths (depth : Nat) : Item → Nat × Nat
  | guard line => if line.closing then (depth - 1, depth - 1) else (depth, depth + 1)
  | entity _ => (depth, depth)

/-- The content of the row of an item: the first line of a guard, or what the entity is. -/
def Item.summary : Item → Text
  | guard line => Text.firstLine line.text
  | entity found => found.describe

namespace ScannedHeader

/-- A row with its line number, which takes five columns or more. -/
def row (line depth : Nat) (content : Text) : Text :=
  let number := Text.ofNat line
  "  L".toList ++ number ++ List.replicate (5 - number.length) ' ' ++ [' '] ++
    List.replicate (2 * depth) ' ' ++ content

/-- The rows of some items after rows that end at `depth`. -/
def rows (header : ScannedHeader) (depth : Nat) : List Placed → List Text
  | [] => []
  | placed :: rest =>
      row (header.lineOf placed) (placed.item.depths depth).1 placed.item.summary ::
        header.rows (placed.item.depths depth).2 rest

/-- The listing of the header with the given name. -/
def listing (header : ScannedHeader) (name : Text) : Text :=
  let title := name ++ ": ".toList ++ Text.ofNat header.entityCount ++ " entities".toList
  (title :: header.rows 0 header.items).flatMap (· ++ ['\n'])

end ScannedHeader

/-! ## As JSON -/

/-- The JSON form of a span. -/
def Span.toJson (span : Span) : Json :=
  .ofMembers [("end".toList, .ofNat span.stop), ("start".toList, .ofNat span.start)]

/-- The JSON form of a line of a body. -/
def BodyLine.toJson : BodyLine → Json
  | member name =>
      .ofMembers [("kind".toList, .ofText "member".toList), ("text".toList, .ofText name)]
  | directive text =>
      .ofMembers [("kind".toList, .ofText "directive".toList), ("text".toList, .ofText text)]

/-- The JSON form of a macro definition. -/
def MacroDefinition.toJson (definition : MacroDefinition) : Json :=
  .ofMembers
    [("name".toList, .ofText definition.name), ("span".toList, definition.span.toJson),
     ("value".toList, .ofText definition.value)]

/-- The JSON form of an item. -/
def Item.toJson : Item → Json
  | guard line =>
      .ofMembers
        [("closing".toList, .bool line.closing), ("item".toList, .ofText "guard".toList),
         ("text".toList, .ofText line.text)]
  | entity (.enumeration declared) =>
      .ofMembers
        [("body".toList, .array (declared.body.map BodyLine.toJson)),
         ("item".toList, .ofText "entity".toList), ("name".toList, .ofText declared.name),
         ("prototype".toList, .ofText declared.typeName), ("span".toList, declared.span.toJson),
         ("type".toList, .ofText "enum".toList)]
  | entity (.macroGroup group) =>
      .ofMembers
        [("definitions".toList, .array (group.definitions.map MacroDefinition.toJson)),
         ("item".toList, .ofText "entity".toList), ("prefix".toList, .ofText group.lead),
         ("type".toList, .ofText "macro_group".toList)]

namespace ScannedHeader

/-- The JSON form of an item with its place. -/
def placedToJson (header : ScannedHeader) (placed : Placed) : Json :=
  .ofMembers
    [("item".toList, placed.item.toJson), ("line".toList, .ofNat (header.lineOf placed)),
     ("offset".toList, .ofNat placed.offset)]

/-- The JSON form of a scanned header with the given name. -/
def toJson (header : ScannedHeader) (name : Text) : Json :=
  .ofMembers
    [("entities".toList, .ofNat header.entityCount), ("header".toList, .ofText name),
     ("items".toList, .array (header.items.map header.placedToJson))]

/-- The listing of the header with the given name, as JSON. -/
def jsonListing (header : ScannedHeader) (name : Text) : Text :=
  Json.print (header.toJson name) ++ ['\n']

end ScannedHeader

end ValueNames
