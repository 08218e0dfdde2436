import Stencil.Decimal.Reading
import Stencil.Value

/-!
Numbers, dates and times of TOML, read from the characters of one word.
-/

namespace Stencil.Toml

/-! ### Digits -/

/-- Digits in a row, with single underscores between them. -/
def separated (isDigit : Char → Bool) : List Char → Option (List Char)
  | [] => none
  | [c] => if isDigit c then some [c] else none
  | c :: '_' :: rest => if isDigit c then (separated isDigit rest).map (c :: ·) else none
  | c :: rest => if isDigit c then (separated isDigit rest).map (c :: ·) else none

def hexValue (c : Char) : Nat :=
  if c.isDigit then c.toNat - '0'.toNat else c.toLower.toNat - 'a'.toNat + 10

def isHexDigit (c : Char) : Bool :=
  c.isDigit || ('a' ≤ c && c ≤ 'f') || ('A' ≤ c && c ≤ 'F')

def isOctalDigit (c : Char) : Bool := '0' ≤ c && c ≤ '7'

def isBinaryDigit (c : Char) : Bool := c == '0' || c == '1'

/-- The value of digits in a base. -/
def inBase (base : Nat) (cs : List Char) : Nat := cs.foldl (fun n c => base * n + hexValue c) 0

/-! ### Numbers -/

/-- Whole numbers are those that fit 128 bits, with or without a sign. -/
def whole? (i : Int) : Option Value :=
  if -(Int.pow 2 127) ≤ i ∧ i < Int.pow 2 128 then some (.int i) else none

/-- Decimal digits without a leading zero, unless zero is all there is. -/
def decimal? (cs : List Char) : Option (List Char) := do
  let ds ← separated Char.isDigit cs
  match ds with
  | '0' :: _ :: _ => none
  | _ => some ds

/-- The sign in front of a number, and the rest. -/
def signOf : List Char → Bool × List Char
  | '-' :: rest => (true, rest)
  | '+' :: rest => (false, rest)
  | rest => (false, rest)

def integer? : List Char → Option Value
  | '0' :: 'x' :: rest => do whole? (inBase 16 (← separated isHexDigit rest))
  | '0' :: 'o' :: rest => do whole? (inBase 8 (← separated isOctalDigit rest))
  | '0' :: 'b' :: rest => do whole? (inBase 2 (← separated isBinaryDigit rest))
  | cs => do
    let (neg, cs) := signOf cs
    let n : Int := Decimal.ofDigits (← decimal? cs)
    whole? (if neg then -n else n)

/-- A number with a fraction or an exponent. It must be in the range of doubles. -/
def fractional? (cs : List Char) : Option Value := do
  let (neg, cs) := signOf cs
  if cs = "inf".toList then return .ofFloat (Decimal.infinity neg)
  else if cs = "nan".toList then return .ofFloat Decimal.notANumber
  else
    let isExponent := fun c : Char => c == 'e' || c == 'E'
    let mantissa := cs.takeWhile (!isExponent ·)
    let exponent := cs.dropWhile (!isExponent ·)
    guard (!exponent.isEmpty || mantissa.contains '.')
    let digits ← decimal? (mantissa.takeWhile (· != '.'))
    let fraction ← match mantissa.dropWhile (· != '.') with
      | [] => some []
      | _ :: rest => separated Char.isDigit rest
    let e : Int ← match exponent with
      | [] => some 0
      | _ :: rest =>
        let (neg, rest) := signOf rest
        (separated Char.isDigit rest).map fun ds =>
          if neg then -(Decimal.ofDigits ds : Int) else Decimal.ofDigits ds
    let f := Decimal.ofScaled neg (Decimal.ofDigits (digits ++ fraction)) (e - fraction.length)
    if f.isFinite then return .num (.float f) else none

/-! ### Dates and times -/

/-- The number that a fixed count of digits makes up, and the rest. -/
def fixed? (count : Nat) (cs : List Char) : Option (Nat × List Char) :=
  let ds := cs.take count
  if ds.length = count ∧ ds.all Char.isDigit then some (Decimal.ofDigits ds, cs.drop count)
  else none

def literal? (c : Char) : List Char → Option (List Char)
  | d :: rest => if d = c then some rest else none
  | [] => none

def daysIn (year month : Nat) : Nat :=
  if month = 2 then
    if year % 4 = 0 ∧ (year % 100 ≠ 0 ∨ year % 400 = 0) then 29 else 28
  else if month = 4 ∨ month = 6 ∨ month = 9 ∨ month = 11 then 30
  else 31

def date? (cs : List Char) : Option (List Char) := do
  let (year, rest) ← fixed? 4 cs
  let (month, rest) ← fixed? 2 (← literal? '-' rest)
  let (day, rest) ← fixed? 2 (← literal? '-' rest)
  if 1 ≤ month ∧ month ≤ 12 ∧ 1 ≤ day ∧ day ≤ daysIn year month then some rest else none

/-- The fraction of a second, to nine places and without zeros at its end. -/
def secondFraction (ds : List Char) : List Char :=
  match ((ds.take 9).reverse.dropWhile (· == '0')).reverse with
  | [] => []
  | kept => '.' :: kept

/-- A time of day with its seconds, which are zero when there are none, and the rest. -/
def time? (cs : List Char) : Option (List Char × List Char) := do
  let (hour, rest) ← fixed? 2 cs
  let (minute, rest) ← fixed? 2 (← literal? ':' rest)
  if hour < 24 ∧ minute < 60 then
    match rest with
    | ':' :: rest =>
      let (second, after) ← fixed? 2 rest
      if second ≤ 60 then
        match after with
        | '.' :: more =>
          let ds := more.takeWhile Char.isDigit
          if ds.isEmpty then none
          else some (cs.take 8 ++ secondFraction ds, more.dropWhile Char.isDigit)
        | _ => some (cs.take 8, after)
      else none
    | _ => some (cs.take 5 ++ ":00".toList, rest)
  else none

/-- A distance from universal time. No distance at all is written with a plus. -/
def offset? : List Char → Option (List Char)
  | [] => some []
  | ['Z'] | ['z'] => some ['Z']
  | sign :: cs => do
    let (hour, rest) ← fixed? 2 cs
    let (minute, rest) ← fixed? 2 (← literal? ':' rest)
    if (sign = '+' ∨ sign = '-') ∧ hour < 24 ∧ minute < 60 ∧ rest = [] then
      some ((if hour + minute = 0 then '+' else sign) :: cs)
    else none

/-- The entry that holds the text of a date or a time. -/
def momentKey : String := "$__toml_private_datetime"

def moment (cs : List Char) : Value := .obj [(momentKey, .str (.ofList cs))]

/-- A date, a time, or both with a blank or a letter between them. -/
def moment? (cs : List Char) : Option Value :=
  match date? cs with
  | some [] => some (moment cs)
  | some (mid :: rest) => do
    if mid = 'T' ∨ mid = 't' ∨ mid = ' ' then
      let (time, rest) ← time? rest
      return moment (cs.take 10 ++ 'T' :: time ++ (← offset? rest))
    else none
  | none =>
    match time? cs with
    | some (time, []) => some (moment time)
    | _ => none

/-- The value of a word. -/
def scalar? (cs : List Char) : Option Value :=
  if cs = "true".toList then some (.bool true)
  else if cs = "false".toList then some (.bool false)
  else (integer? cs).or ((fractional? cs).or (moment? cs))

end Stencil.Toml
