import Stencil.Value.Coercion

/-!
Helpers: the functions a template may call by name.
-/

namespace Stencil

/-- A function of template values that answers with a value or a failure message. -/
abbrev Helper := List Value → Except String Value

namespace Helper

/-- The argument at a position, null when fewer were passed. -/
def argument (args : List Value) (i : Nat) : Value := args.getD i .null

end Helper

/-- Helpers by name. -/
abbrev HelperTable := Entries Helper

end Stencil
