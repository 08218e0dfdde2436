import Stencil.Value

/-!
Numbers of JSON data.

A whole number that fits 64 bits is exact. Any other number is a double: the leading digits
that fit 64 bits, scaled by a power of ten in double arithmetic.
-/

namespace Stencil.Json

/-- Digits taken into a number of 64 bits as long as they fit, the count of those taken, and
the rest. -/
def significand (m : Nat) : List Char → Nat × Nat × List Char
  | [] => (m, 0, [])
  | c :: cs =>
    if c.isDigit then
      let next := 10 * m + (c.toNat - '0'.toNat)
      if next < Nat.pow 2 64 then
        let (m, taken, rest) := significand next cs
        (m, taken + 1, rest)
      else (m, 0, c :: cs)
    else (m, 0, c :: cs)

/-- A power of ten as a double, up to the largest one there is. -/
def powerOfTen (n : Nat) : Float := Decimal.nearest false (Nat.pow 10 n) 1

/-- Scales by a power of ten in steps of at most 308. There is no result beyond the largest
double. The bound limits the number of steps. -/
def scaleWithin : Nat → Float → Int → Option Float
  | 0, _, _ => some 0
  | n + 1, f, e =>
    if e.natAbs ≤ 308 then
      if 0 ≤ e then
        let f := f * powerOfTen e.toNat
        if f.isFinite then some f else none
      else some (f / powerOfTen e.natAbs)
    else if f == 0 then some f
    else if 0 ≤ e then none
    else scaleWithin n (f / powerOfTen 308) (e + 308)

/-- A double, from its sign, its leading digits and its exponent. After four steps downward
nothing is left of any number. -/
def double? (neg : Bool) (m : Nat) (e : Int) : Option Value := do
  let f ← scaleWithin 5 (Decimal.ofInt m) e
  return .num (.float (if neg then -f else f))

/-- The digits of an exponent, after its letter and its sign. -/
def exponent? (neg : Bool) (m : Nat) (e : Int) (down : Bool) (cs : List Char) :
    Option (Value × List Char) :=
  let (ds, rest) := Decimal.spanDigits cs
  if ds.isEmpty then none
  else
    let n := Decimal.ofDigits ds
    let v := if m = 0 then double? neg 0 0
      else if down then double? neg m (e - min n (Nat.pow 2 31 - 1)) else double? neg m (e + n)
    v.map (·, rest)

/-- The end of a double: an exponent, or nothing. -/
def scaled? (neg : Bool) (m : Nat) (e : Int) : List Char → Option (Value × List Char)
  | c :: cs =>
    if c = 'e' ∨ c = 'E' then
      match cs with
      | '-' :: cs => exponent? neg m e true cs
      | '+' :: cs => exponent? neg m e false cs
      | cs => exponent? neg m e false cs
    else (double? neg m e).map (·, c :: cs)
  | [] => (double? neg m e).map (·, [])

/-- A number after its whole digits. -/
def afterWhole (neg : Bool) (m dropped : Nat) : List Char → Option (Value × List Char)
  | '.' :: cs =>
    match cs with
    | d :: _ =>
      if d.isDigit then
        let (m, taken, rest) := significand m cs
        scaled? neg m ((dropped : Int) - taken) (rest.dropWhile Char.isDigit)
      else none
    | [] => none
  | 'e' :: cs => scaled? neg m dropped ('e' :: cs)
  | 'E' :: cs => scaled? neg m dropped ('E' :: cs)
  | cs =>
    if 0 < dropped then (double? neg m dropped).map (·, cs)
    else if !neg then some (.int m, cs)
    else if 0 < m ∧ m ≤ Nat.pow 2 63 then some (.int (-(m : Int)), cs)
    else some (.num (.float (-Decimal.ofInt m)), cs)

def unsigned? (neg : Bool) : List Char → Option (Value × List Char)
  | '0' :: d :: cs => if d.isDigit then none else afterWhole neg 0 0 (d :: cs)
  | c :: cs =>
    if c.isDigit then
      let (m, _, rest) := significand 0 (c :: cs)
      let dropped := (rest.takeWhile Char.isDigit).length
      afterWhole neg m dropped (rest.drop dropped)
    else none
  | [] => none

def number? : List Char → Option (Value × List Char)
  | '-' :: cs => unsigned? true cs
  | cs => unsigned? false cs

end Stencil.Json
