import Stencil.Decimal.Exact

/-!
The fewest decimal digits that identify a double.

The reals that round to a double form an interval around it. Its shortest text is the
decimal with the fewest digits in that interval, and of two such decimals the closer one.
-/

namespace Stencil.Decimal

/-- The decimal `digits * 10 ^ scale`. -/
structure Scaled where
  digits : Nat
  scale : Int
deriving Repr, DecidableEq

/-- Four times a positive double and the two ends of its rounding interval, over one
denominator. The lower end is nearer where the gap below is the narrow one. -/
structure Interval where
  low : Nat
  mid : Nat
  high : Nat
  den : Nat
  closed : Bool

def Exact.interval (x : Exact) : Interval :=
  let unit := Nat.pow 2 x.q.toNat
  let below := if x.m = Nat.pow 2 52 ∧ x.q > -1074 then 1 else 2
  { low := (4 * x.m - below) * unit
    mid := 4 * x.m * unit
    high := (4 * x.m + 2) * unit
    den := 4 * Nat.pow 2 (-x.q).toNat
    closed := x.m % 2 == 0 }

/-- Whether the decimal rounds to the double the interval belongs to. -/
def Interval.holds (i : Interval) (d : Scaled) : Bool :=
  let value := d.digits * Nat.pow 10 d.scale.toNat * i.den
  let low := i.low * Nat.pow 10 (-d.scale).toNat
  let high := i.high * Nat.pow 10 (-d.scale).toNat
  if i.closed then low ≤ value && value ≤ high else low < value && value < high

/-- The least power of ten above the value. -/
def Interval.magnitude (i : Interval) : Int :=
  if i.den ≤ i.mid then ((i.mid / i.den).repr.length : Int)
  else 1 - ((i.den - 1) / i.mid).repr.length

/-- The decimal on the grid of the given scale that rounds to the double. Of two the closer
one is taken, and the larger one when both are equally close. -/
def Interval.onGrid? (i : Interval) (scale : Int) : Option Scaled :=
  let num := i.mid * Nat.pow 10 (-scale).toNat
  let den := i.den * Nat.pow 10 scale.toNat
  let under := num / den
  let lower : Scaled := ⟨under, scale⟩
  let upper : Scaled := ⟨under + 1, scale⟩
  match i.holds lower, i.holds upper with
  | true, true => if 2 * num < (2 * under + 1) * den then some lower else some upper
  | true, false => some lower
  | false, true => some upper
  | false, false => none

/-- The exact decimal value of `m * 2 ^ q`. -/
def Exact.expand (x : Exact) : Scaled :=
  if 0 ≤ x.q then ⟨x.m * Nat.pow 2 x.q.toNat, 0⟩ else ⟨x.m * Nat.pow 5 (-x.q).toNat, x.q⟩

/-- The shortest decimal that rounds to a positive double. A power of ten found from below
ends in a zero, which is moved into the scale. -/
def Exact.shortest (x : Exact) : Scaled :=
  let i := x.interval
  let k := i.magnitude
  let found := (List.range 17).findSome? fun (n : Nat) => i.onGrid? (k - 1 - n)
  match found.getD x.expand with
  | ⟨d, s⟩ => if d % 10 = 0 then ⟨d / 10, s + 1⟩ else ⟨d, s⟩

/-! ### Layout -/

/-- Positional notation at every size, with no exponent and no point after a whole number. -/
def Scaled.positional (d : Scaled) : String :=
  let digits := d.digits.repr
  if 0 ≤ d.scale then digits ++ String.ofList (List.replicate d.scale.toNat '0')
  else
    let places := (-d.scale).toNat
    let cs := digits.toList
    if cs.length ≤ places then
      "0." ++ String.ofList (List.replicate (places - cs.length) '0') ++ digits
    else
      let whole := cs.length - places
      String.ofList (cs.take whole) ++ "." ++ String.ofList (cs.drop whole)

/-- The text of a double: its shortest digits in positional notation. -/
def text (f : Float) : String :=
  match Exact.ofFloat? f with
  | some x =>
    let magnitude := if x.m = 0 then "0" else x.shortest.positional
    if x.neg then "-" ++ magnitude else magnitude
  | none => if f.isNaN then "NaN" else if f < 0 then "-inf" else "inf"

end Stencil.Decimal
