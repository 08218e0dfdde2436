import Stencil.Decimal.Exact

/-!
Numbers read from text.

The grammar of a double is a sign, then digits with an optional point and exponent, or one
of the words for infinity and NaN in any case. The value is the nearest double.
-/

namespace Stencil.Decimal

/-- The value of a run of ASCII digits. -/
def ofDigits (cs : List Char) : Nat :=
  cs.foldl (fun n c => 10 * n + (c.toNat - '0'.toNat)) 0

/-- The leading ASCII digits of a text and what follows them. -/
def spanDigits (cs : List Char) : List Char × List Char := cs.span Char.isDigit

/-- A whole number below the bound: digits, with an optional plus sign. -/
def readNat? (bound : Nat) (cs : List Char) : Option Nat :=
  let ds := match cs with
    | '+' :: rest => rest
    | _ => cs
  if ds.isEmpty || !ds.all Char.isDigit then none
  else
    let n := ofDigits ds
    if n < bound then some n else none

/-- The exponent part of a number, which must be all that is left of the text. -/
def readExponent? : List Char → Option Int
  | [] => some 0
  | c :: rest =>
    if c = 'e' ∨ c = 'E' then
      let (neg, ds) := match rest with
        | '-' :: ds => (true, ds)
        | '+' :: ds => (false, ds)
        | ds => (false, ds)
      if ds.isEmpty || !ds.all Char.isDigit then none
      else some (if neg then -(ofDigits ds : Int) else ofDigits ds)
    else none

/-- The double nearest to `m * 10 ^ e`, where `m` is the value of the digits.

An exponent far outside the range of doubles is settled without computing its power. -/
def ofScaled (neg : Bool) (m : Nat) (e : Int) : Float :=
  let size : Int := m.repr.length
  if m = 0 then signed neg 0
  else if size + e > 400 then infinity neg
  else if size + e < -400 then signed neg 0
  else nearest neg (m * Nat.pow 10 e.toNat) (Nat.pow 10 (-e).toNat)

/-- A number without a sign. -/
def readMagnitude? (neg : Bool) (cs : List Char) : Option Float :=
  let word := cs.map Char.toLower
  if word = "inf".toList ∨ word = "infinity".toList then some (infinity neg)
  else if word = "nan".toList then some notANumber
  else
    let (whole, rest) := spanDigits cs
    let (fraction, rest) := match rest with
      | '.' :: rest => spanDigits rest
      | _ => ([], rest)
    if whole.isEmpty && fraction.isEmpty then none
    else do
      let e ← readExponent? rest
      return ofScaled neg (ofDigits (whole ++ fraction)) (e - fraction.length)

/-- The double a text stands for. -/
def readFloat? : List Char → Option Float
  | '-' :: cs => readMagnitude? true cs
  | '+' :: cs => readMagnitude? false cs
  | cs => readMagnitude? false cs

end Stencil.Decimal
