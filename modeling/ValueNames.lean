import ValueNames.FileTree
import ValueNames.Main
import ValueNames.Proofs.Item.Order
import ValueNames.Proofs.Item.Selection
import ValueNames.Proofs.Conditional.Forest
import ValueNames.Proofs.Scan.Outline
import ValueNames.Proofs.Scan.Found
import ValueNames.Proofs.Scan.Run
import ValueNames.Proofs.Scan.Collect
import ValueNames.Proofs.Scan.Batch
import ValueNames.Proofs.Item.Nesting
import ValueNames.Proofs.Scan.Nesting
import ValueNames.Proofs.Comment.Origin
import ValueNames.Proofs.Finder
import ValueNames.Proofs.Header.Acceptance
import ValueNames.Proofs.Conditional.Truth
import ValueNames.Proofs.Item.Around
import ValueNames.Proofs.Scan.Around
import ValueNames.Proofs.Header.Fidelity
import ValueNames.Proofs.Comment.Idempotence
import ValueNames.Proofs.MacroGroup.Reading
import ValueNames.Proofs.Scan.Parts
import ValueNames.Proofs.MacroGroup.Finding
import ValueNames.Proofs.Header.Groups
import ValueNames.Proofs.Header.GroupGuards
import ValueNames.Proofs.Header.Enumerations
import ValueNames.Proofs.Scan.Outermost
import ValueNames.Proofs.Header.Outermost
import ValueNames.Proofs.Scan.Tiling
import ValueNames.Proofs.Enumeration.Finding
import ValueNames.Proofs.Scan.Braces
import ValueNames.Proofs.Header.Embedding
import ValueNames.Proofs.Header.Offsets
import ValueNames.Proofs.Scan.FinderOrder
import ValueNames.Proofs.Conditional.Seam
import ValueNames.Proofs.Scan.Calls
import ValueNames.Proofs.Scan.Online
import ValueNames.Proofs.Item.Shift
import ValueNames.Proofs.Finder.Local
import ValueNames.Proofs.Scan.Outputs
import ValueNames.Proofs.Scan.Behind
import ValueNames.Proofs.Header.Concatenation
import ValueNames.Proofs.Comment.Decomposition
import ValueNames.Proofs.Enumeration.Layout
import ValueNames.Proofs.Generation.AllOrNothing
import ValueNames.Proofs.Header.LineEnds
import ValueNames.Proofs.Scan.Literals
import ValueNames.Proofs.Enumeration.Printed
import ValueNames.Proofs.Output.Table
import ValueNames.Proofs.Header.GuardLines
import ValueNames.Proofs.Conditional.WholeLines
import ValueNames.Proofs.Output.Compiled
import ValueNames.Proofs.Header.Compiled
import ValueNames.Proofs.Pattern.Matching
import ValueNames.Proofs.Conditional.Pattern
import ValueNames.Proofs.Conditional.LineReader
import ValueNames.Proofs.Scan.Cuts
import ValueNames.Proofs.Text.Lowercase
import ValueNames.Proofs.MacroGroup.Printed
import ValueNames.Proofs.Json.Spelling
import ValueNames.Proofs.Json.Writing
import ValueNames.Proofs.Settings.Loading
