import Stencil.Main
import Stencil.Proofs.Tag.Decomposition
import Stencil.Proofs.Script.Grammar
import Stencil.Proofs.Script.Reading
import Stencil.Proofs.Script.Lists
import Stencil.Proofs.Script.Sound
import Stencil.Proofs.Script.Complete
import Stencil.Proofs.Script.Escaping
import Stencil.Proofs.Script.Exact
import Stencil.Proofs.Script.Parts
import Stencil.Proofs.Script.Resolution
import Stencil.Proofs.Script.Formed
import Stencil.Proofs.Script.Invariant
import Stencil.Proofs.Script.Placement
import Stencil.Proofs.Script.Depth
import Stencil.Proofs.Script.Items
import Stencil.Proofs.Engine.History
import Stencil.Proofs.Engine.Piecewise
import Stencil.Proofs.Decimal.Whole
import Stencil.Proofs.Script.Statements
import Stencil.Proofs.Script.Printing
import Stencil.Proofs.Script.RoundTrip
import Stencil.Proofs.Tag.Written
import Stencil.Proofs.Rewrite.Header
import Stencil.Proofs.Script.Lexing
import Stencil.Proofs.Value.Position
import Stencil.Proofs.Script.Counting
import Stencil.Proofs.Engine.ForIn
import Stencil.Proofs.Script.Transfer
import Stencil.Proofs.Script.Equivalence
import Stencil.Proofs.Script.Division
import Stencil.Proofs.Script.Rejoining
import Stencil.Proofs.Tag.Insertion
import Stencil.Proofs.Script.Lines
import Stencil.Proofs.Engine.Comment
import Stencil.Proofs.Tag.Closing
import Stencil.Proofs.Engine.Paths
import Stencil.Proofs.Command.Checking
import Stencil.Proofs.Script.Compound
import Stencil.Proofs.Value.Slots
import Stencil.Proofs.Script.Locals
import Stencil.Proofs.Script.Writing
import Stencil.Proofs.Script.Ignoring
import Stencil.Proofs.Script.Rounds
import Stencil.Proofs.Script.Bounded
import Stencil.Proofs.Rewrite.Tokens
import Stencil.Proofs.Rewrite.Loops
import Stencil.Proofs.Script.Strings
import Stencil.Proofs.Script.Layout
import Stencil.Proofs.Helper.Placeholders
import Stencil.Proofs.Helper.Attribute
import Stencil.Proofs.Instruction.Generation
import Stencil.Proofs.Script.Naming
import Stencil.Proofs.Rewrite.Matching
import Stencil.Proofs.Rewrite.Occurrences
import Stencil.Proofs.Script.Progress
import Stencil.Proofs.Script.TokenLines
import Stencil.Proofs.Rewrite.Breaks
import Stencil.Proofs.Script.FaultLines
import Stencil.Proofs.Engine.TemplateLines
import Stencil.Proofs.Decimal.Value
import Stencil.Proofs.Value.Likeness
import Stencil.Proofs.Value.Equality
import Stencil.Proofs.Value.Exactness
import Stencil.Proofs.Script.Declared
import Stencil.Proofs.FileTree.Written
import Stencil.Proofs.Command.Rendering
import Stencil.Proofs.Script.Descent.Calls
