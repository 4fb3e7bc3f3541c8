import ValueNames.Header
import ValueNames.Output.Function

/-!
# The generated file

The text of the file around the generated functions: a doc comment, the
licence, the includes, and a guard around all that needs the guard macro.
-/

namespace ValueNames

/-- The licence text at the head of a generated file. -/
def licence : Text :=
  ("/*\n" ++
    " *  Copyright The Mbed TLS Contributors\n" ++
    " *  SPDX-License-Identifier: Apache-2.0\n" ++
    " *\n" ++
    " *  Licensed under the Apache License, Version 2.0 (the \"License\"); you may\n" ++
    " *  not use this file except in compliance with the License.\n" ++
    " *  You may obtain a copy of the License at\n" ++
    " *\n" ++
    " *  http://www.apache.org/licenses/LICENSE-2.0\n" ++
    " *\n" ++
    " *  Unless required by applicable law or agreed to in writing, software\n" ++
    " *  distributed under the License is distributed on an \"AS IS\" BASIS, WITHOUT\n" ++
    " *  WARRANTIES OR CONDITIONS OF ANY KIND, either express or implied.\n" ++
    " *  See the License for the specific language governing permissions and\n" ++
    " *  limitations under the License.\n" ++
    " */\n").toList

/-- The generated file around its functions. -/
def outputFile (settings : Settings) (functions : Text) : Text :=
  "/* Automatically generated by strgen. DO NOT EDIT. */\n\n/**\n * \\file ".toList ++
    settings.outputFile ++
    "\n *\n * \\brief Automatically generated helper functions for debugging\n */\n".toList ++
    licence ++ "\n#include \"common.h\"\n\n#if defined(".toList ++ settings.guardMacro ++
    ")\n\n#include \"".toList ++ settings.companionHeader ++ "\"\n\n".toList ++ functions ++
    "\n\n#endif /* ".toList ++ settings.guardMacro ++
    " */\n/* End of automatically generated file. */\n\n".toList

/-- The generated file for some items. -/
def outputFileOf (settings : Settings) (items : List Placed) : Text :=
  outputFile settings (Placed.functions settings items)

/-- The generated file for the text of a header. -/
def generate (text : Text) (settings : Settings) : Except Fault Text :=
  (ScannedHeader.ofText text settings).map fun header => outputFileOf settings header.items

end ValueNames
