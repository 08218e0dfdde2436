import Stencil.Entries
import Stencil.Number

/-!
Template values: the data a template reads and computes with.
-/

namespace Stencil

inductive Value where
  | null
  | bool (b : Bool)
  | num (n : Number)
  | str (s : String)
  | arr (items : List Value)
  | obj (entries : List (String × Value))
deriving Inhabited

namespace Value

def int (i : Int) : Value := .num (.int i)

/-- The value of a computed double: null when it is not finite. -/
def ofFloat (f : Float) : Value :=
  match Number.ofFloat? f with
  | some n => .num n
  | none => .null

mutual
/-- Whether all numbers in a value are ones that data can hold. -/
def fits : Value → Bool
  | .num n => n.fits
  | .arr items => allFit items
  | .obj entries => entriesFit entries
  | .null | .bool _ | .str _ => true

def allFit : List Value → Bool
  | [] => true
  | v :: vs => v.fits && allFit vs

def entriesFit : List (String × Value) → Bool
  | [] => true
  | (_, v) :: es => v.fits && entriesFit es
end

/-- The word for the kind of a value in messages. -/
def typeName : Value → String
  | .null => "null"
  | .bool _ => "boolean"
  | .num _ => "number"
  | .str _ => "string"
  | .arr _ => "array"
  | .obj _ => "object"

end Value

end Stencil
