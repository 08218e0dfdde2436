import Stencil.Text.CharClass
import Stencil.Value

/-!
Loose readings of a value: as a condition, as text and as a number.
-/

namespace Stencil.Value

/-- Whether a value counts as true. Zero, NaN, the empty string and null do not. -/
def isTruthy : Value → Bool
  | .null => false
  | .bool b => b
  | .num n => n.toFloat != 0 && !n.toFloat.isNaN
  | .str s => !s.isEmpty
  | .arr _ | .obj _ => true

mutual
/-- The text a value renders as. Null renders as nothing. -/
def toText : Value → String
  | .null => ""
  | .bool b => if b then "true" else "false"
  | .num n => n.text
  | .str s => s
  | .arr items => ",".intercalate (textsOf items)
  | .obj _ => "[object Object]"

def textsOf : List Value → List String
  | [] => []
  | v :: vs => toText v :: textsOf vs
end

/-- The number a value stands for, NaN when there is none. -/
def toNumber : Value → Float
  | .null => 0
  | .bool b => if b then 1 else 0
  | .num n => n.toFloat
  | .str s =>
    match Text.trim s.toList with
    | [] => 0
    | cs => (Decimal.readFloat? cs).getD Decimal.notANumber
  | .arr _ | .obj _ => Decimal.notANumber

theorem textsOf_eq_map (vs : List Value) : textsOf vs = vs.map toText := by
  induction vs with
  | nil => rfl
  | cons v vs ih => simp [textsOf, ih]

end Stencil.Value
