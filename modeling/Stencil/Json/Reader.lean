import Stencil.Json.Number

/-!
Reading JSON data.

Objects keep the order of their entries. A name that comes again replaces the value and keeps
the place.
-/

namespace Stencil.Json

def isSpace (c : Char) : Bool := c == ' ' || c == '\n' || c == '\t' || c == '\r'

def skipSpace (cs : List Char) : List Char := cs.dropWhile isSpace

/-! ### Strings -/

def hexDigit? (c : Char) : Option Nat :=
  if c.isDigit then some (c.toNat - '0'.toNat)
  else if 'a' ≤ c ∧ c ≤ 'f' then some (c.toNat - 'a'.toNat + 10)
  else if 'A' ≤ c ∧ c ≤ 'F' then some (c.toNat - 'A'.toNat + 10)
  else none

/-- A unit of sixteen bits in four hexadecimal digits. -/
def unit? : List Char → Option (Nat × List Char)
  | a :: b :: c :: d :: rest => do
    return (((← hexDigit? a) * 16 + (← hexDigit? b)) * 256 + (← hexDigit? c) * 16 +
      (← hexDigit? d), rest)
  | _ => none

/-- The character of one unit, or of two that make up a pair. -/
def unicode? (cs : List Char) : Option (Char × List Char) := do
  let (high, rest) ← unit? cs
  if 0xD800 ≤ high ∧ high < 0xDC00 then
    match rest with
    | '\\' :: 'u' :: rest =>
      let (low, rest) ← unit? rest
      if 0xDC00 ≤ low ∧ low < 0xE000 then
        return (.ofNat (0x10000 + (high - 0xD800) * 0x400 + (low - 0xDC00)), rest)
      else none
    | _ => none
  else if 0xDC00 ≤ high ∧ high < 0xE000 then none
  else return (.ofNat high, rest)

def escape? : List Char → Option (Char × List Char)
  | '"' :: rest => some ('"', rest)
  | '\\' :: rest => some ('\\', rest)
  | '/' :: rest => some ('/', rest)
  | 'b' :: rest => some ('\x08', rest)
  | 'f' :: rest => some ('\x0c', rest)
  | 'n' :: rest => some ('\n', rest)
  | 'r' :: rest => some ('\r', rest)
  | 't' :: rest => some ('\t', rest)
  | 'u' :: rest => unicode? rest
  | _ => none

/-- A string after its opening quote. -/
def chars? : Nat → List Char → Option (List Char × List Char)
  | 0, _ => none
  | _ + 1, [] => none
  | _ + 1, '"' :: rest => some ([], rest)
  | n + 1, '\\' :: rest => do
    let (c, rest) ← escape? rest
    let (s, rest) ← chars? n rest
    return (c :: s, rest)
  | n + 1, c :: rest => do
    if 0x20 ≤ c.toNat then
      let (s, rest) ← chars? n rest
      return (c :: s, rest)
    else none

def string? (cs : List Char) : Option (String × List Char) :=
  (chars? (cs.length + 1) cs).map fun (s, rest) => (.ofList s, rest)

/-! ### Values -/

/-- How deep arrays and objects may be nested. -/
def maxNesting : Nat := 127

abbrev ValueReader := List Char → Option (Value × List Char)

/-- The elements of an array that has at least one more. -/
def elements? (value? : ValueReader) : Nat → List Char → Option (List Value × List Char)
  | 0, _ => none
  | n + 1, cs => do
    let (v, rest) ← value? cs
    match skipSpace rest with
    | ',' :: rest =>
      let (vs, rest) ← elements? value? n rest
      return (v :: vs, rest)
    | ']' :: rest => return ([v], rest)
    | _ => none

/-- The entries of an object that has at least one more. -/
def entries? (value? : ValueReader) : Nat → List Char → Option (List (String × Value) × List Char)
  | 0, _ => none
  | n + 1, cs =>
    match skipSpace cs with
    | '"' :: rest => do
      let (name, rest) ← string? rest
      match skipSpace rest with
      | ':' :: rest =>
        let (v, rest) ← value? rest
        match skipSpace rest with
        | ',' :: rest =>
          let (es, rest) ← entries? value? n rest
          return ((name, v) :: es, rest)
        | '}' :: rest => return ([(name, v)], rest)
        | _ => none
      | _ => none
    | _ => none

def array? (value? : ValueReader) (cs : List Char) : Option (Value × List Char) :=
  match skipSpace cs with
  | ']' :: rest => some (.arr [], rest)
  | _ => (elements? value? (cs.length + 1) cs).map fun (vs, rest) => (.arr vs, rest)

def object? (value? : ValueReader) (cs : List Char) : Option (Value × List Char) :=
  match skipSpace cs with
  | '}' :: rest => some (.obj [], rest)
  | _ => (entries? value? (cs.length + 1) cs).map fun (es, rest) => (.obj (Entries.ofList es), rest)

/-- A value when the given number of containers may still be nested. -/
def value? (depth : Nat) (cs : List Char) : Option (Value × List Char) :=
  match depth, skipSpace cs with
  | _, 'n' :: 'u' :: 'l' :: 'l' :: rest => some (.null, rest)
  | _, 't' :: 'r' :: 'u' :: 'e' :: rest => some (.bool true, rest)
  | _, 'f' :: 'a' :: 'l' :: 's' :: 'e' :: rest => some (.bool false, rest)
  | _, '"' :: rest => (string? rest).map fun (s, rest) => (.str s, rest)
  | n + 1, '[' :: rest => array? (value? n) rest
  | n + 1, '{' :: rest => object? (value? n) rest
  | _, cs => number? cs

/-- The value a text consists of. -/
def read? (source : String) : Option Value := do
  let (v, rest) ← value? maxNesting source.toList
  if (skipSpace rest).isEmpty then some v else none

end Stencil.Json
