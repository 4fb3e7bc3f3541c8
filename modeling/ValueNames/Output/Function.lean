import ValueNames.Item
import ValueNames.Settings.Basic

/-!
# Lookup functions

The generated C functions from a value to its name. An enumeration becomes a
table indexed by its values, in which the directive lines of its body are
repeated, so that an entry is compiled exactly when its enumerator is. A macro
group becomes a switch over its names.
-/

namespace ValueNames

/-- The entry of a table for a line of the body. -/
def BodyLine.tableEntry : BodyLine → Text
  | member name => "        [".toList ++ name ++ "] = \"".toList ++ name ++ "\",".toList
  | directive text => text

/-- The function from the values of an enumeration to their names. -/
def Enumeration.function (sentinel : Text) (enumeration : Enumeration) : Text :=
  "const char *".toList ++ enumeration.name ++ "_str( ".toList ++ enumeration.typeName ++
    " in )\n\x7b\n    const char * in_to_str[]=\n    \x7b\n".toList ++
    Text.join ['\n'] (enumeration.body.map BodyLine.tableEntry) ++
    "\n    \x7d;\n\n    if( in > ( sizeof( in_to_str )/sizeof( in_to_str[0]) - 1 ) ||\n".toList ++
    "        in_to_str[ in ] == NULL )\n    \x7b\n        return \"".toList ++ sentinel ++
    "\";\n    \x7d\n    return in_to_str[ in ];\n\x7d\n".toList

/-- The case of a switch for a macro of a group. -/
def MacroGroup.case (group : MacroGroup) (definition : MacroDefinition) : Text :=
  "\tcase ".toList ++ definition.name ++ ":\n\t    return \"".toList ++ group.label definition ++
    "\";".toList

/-- The function from the values of a group of macros to their labels. -/
def MacroGroup.function (name sentinel : Text) (group : MacroGroup) : Text :=
  "const char *".toList ++ name ++ "( uint16_t in )\n\x7b\n    switch( in )\n    \x7b\n".toList ++
    Text.join ['\n'] (group.definitions.map group.case) ++
    "\n    \x7d;\n\n    return \"".toList ++ sentinel ++ "\";\n\x7d".toList

/-- The function generated for an entity. -/
def Entity.function (settings : Settings) : Entity → Text
  | enumeration declared => declared.function settings.enumSentinel
  | macroGroup group => group.function settings.macroFunction settings.macroSentinel

/-- The line or function generated for an item. -/
def Item.output (settings : Settings) : Item → Text
  | guard line => line.text
  | entity found => found.function settings

/-- The guard lines and functions for some items, ordered by offset. -/
def Placed.functions (settings : Settings) (items : List Placed) : Text :=
  Text.join ['\n'] ((Placed.ordered items).map fun placed => placed.item.output settings)

end ValueNames
