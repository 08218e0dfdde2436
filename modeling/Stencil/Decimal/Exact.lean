/-!
Doubles as exact numbers.

A finite double is plus or minus `m * 2 ^ q`. `nearest` goes the other way and rounds a
quotient of whole numbers to the closest double, so every conversion here is a step of
integer arithmetic.
-/

namespace Stencil.Decimal

/-- A finite double: `m * 2 ^ q`, negated when `neg` is set. -/
structure Exact where
  neg : Bool
  m : Nat
  q : Int
deriving Repr, DecidableEq

/-- The exact value of a finite double; nothing for an infinity or a NaN. -/
def Exact.ofFloat? (f : Float) : Option Exact :=
  let bits := f.toBits.toNat
  let exponent : Nat := bits / Nat.pow 2 52 % 2048
  let fraction := bits % Nat.pow 2 52
  let neg := bits / Nat.pow 2 63 == 1
  if exponent = 2047 then none
  else if exponent = 0 then some ⟨neg, fraction, -1074⟩
  else some ⟨neg, Nat.pow 2 52 + fraction, (exponent : Int) - 1075⟩

/-- A quotient rounded to a whole number; a half goes to the even neighbour. -/
def roundDiv (num den : Nat) : Nat :=
  let k := num / den
  let twice := 2 * (num % den)
  if twice < den ∨ (twice = den ∧ k % 2 = 0) then k else k + 1

/-- The double with the given sign and magnitude bits. -/
def signed (neg : Bool) (magnitude : Nat) : Float :=
  .ofBits (.ofNat (magnitude + if neg then Nat.pow 2 63 else 0))

def infinity (neg : Bool) : Float := signed neg (2047 * Nat.pow 2 52)

def notANumber : Float := 0.0 / 0.0

/-- The double nearest to `num / den`, infinite when that is beyond the largest one.

The exponent `q` gives the rounded quotient 53 bits, or fewer at the smallest exponent. A
mantissa that rounds up to `2 ^ 53` carries into the exponent field by itself. -/
def nearest (neg : Bool) (num den : Nat) : Float :=
  if num = 0 then signed neg 0
  else
    let guess : Int := (num.log2 : Int) - den.log2
    let e :=
      if num * Nat.pow 2 (-guess).toNat < den * Nat.pow 2 guess.toNat then guess - 1 else guess
    let q := max (e - 52) (-1074)
    let m := roundDiv (num * Nat.pow 2 (-q).toNat) (den * Nat.pow 2 q.toNat)
    signed neg (min ((q + 1074).toNat * Nat.pow 2 52 + m) (2047 * Nat.pow 2 52))

/-- The double nearest to a whole number. -/
def ofInt (i : Int) : Float := nearest (i < 0) i.natAbs 1

/-- The whole number a double stands for, if it stands for one. -/
def toInt? (f : Float) : Option Int := do
  let x ← Exact.ofFloat? f
  let unit := Nat.pow 2 (-x.q).toNat
  if x.m % unit = 0 then
    let n : Int := x.m / unit * Int.pow 2 x.q.toNat
    return if x.neg then -n else n
  else none

/-- The remainder of a division that rounds toward zero. It has the sign of the dividend,
and it is exact. -/
def remainder (a b : Float) : Float :=
  match Exact.ofFloat? a, Exact.ofFloat? b with
  | some x, some y =>
    if y.m = 0 then notANumber
    else
      let q := min x.q y.q
      let r := (x.m * Nat.pow 2 (x.q - q).toNat) % (y.m * Nat.pow 2 (y.q - q).toNat)
      nearest x.neg (r * Nat.pow 2 q.toNat) (Nat.pow 2 (-q).toNat)
  | some _, none => if b.isNaN then b else a
  | none, _ => notANumber

end Stencil.Decimal
