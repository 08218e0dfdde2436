import Stencil.Decimal.Reading
import Stencil.Decimal.Shortest

/-!
Numbers of template data: exact integers beside doubles.

Arithmetic goes through doubles. A whole result of moderate size becomes an integer again.
-/

namespace Stencil

inductive Number where
  | int (i : Int)
  | float (f : Float)
deriving DecidableEq

namespace Number

def toFloat : Number → Float
  | .int i => Decimal.ofInt i
  | .float f => f

/-- The number for a result of arithmetic: an integer when the double is whole and below
`2 ^ 53` in size, and nothing when it is not finite. -/
def ofFloat? (f : Float) : Option Number :=
  match Decimal.toInt? f with
  | some i => if i.natAbs < Nat.pow 2 53 then some (.int i) else some (.float f)
  | none => if f.isFinite then some (.float f) else none

/-- Whole numbers below `10 ^ 21` are written out exactly, and other doubles with the fewest
digits that identify them. -/
def text : Number → String
  | .int i => toString i
  | .float f =>
    match Decimal.toInt? f with
    | some i => if i.natAbs < Nat.pow 10 21 then toString i else Decimal.text f
    | none => Decimal.text f

/-- Whether data can hold the number: an integer has to fit 64 bits, with or without a sign. -/
def fits : Number → Bool
  | .int i => -(Int.pow 2 63) ≤ i && i < Int.pow 2 64
  | .float _ => true

/-- Two numbers in the same representation with the same value. -/
def same : Number → Number → Bool
  | .int a, .int b => a == b
  | .float a, .float b => a == b
  | _, _ => false

end Number

end Stencil
