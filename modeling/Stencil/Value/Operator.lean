import Stencil.Value.Coercion

/-!
The operators of the script language on values.

Two numbers are equal when their doubles are. Inside containers equality is structural, and
there an integer and a double are different.
-/

namespace Stencil.Value

/-! ### Equality -/

mutual
/-- Structural equality. The order of an object's entries does not matter. -/
def same : Value → Value → Bool
  | .null, .null => true
  | .bool a, .bool b => a == b
  | .num a, .num b => a.same b
  | .str a, .str b => a == b
  | .arr as, .arr bs => sameItems as bs
  | .obj as, .obj bs => as.length == bs.length && sameEntries as bs
  | _, _ => false

def sameItems : List Value → List Value → Bool
  | [], [] => true
  | a :: as, b :: bs => same a b && sameItems as bs
  | _, _ => false

/-- Every entry on the left has an equal one of the same name on the right. -/
def sameEntries : List (String × Value) → List (String × Value) → Bool
  | [], _ => true
  | (name, a) :: as, bs =>
    (match Entries.find? bs name with
      | some b => same a b
      | none => false) && sameEntries as bs
end

def strictEquals : Value → Value → Bool
  | .num a, .num b => a.toFloat == b.toFloat
  | a, b => same a b

/-! ### Order -/

def compareFloats (a b : Float) : Option Ordering :=
  if a < b then some .lt else if a == b then some .eq else if b < a then some .gt else none

/-- Strings are ordered by code points and all else as numbers. Nothing compares with NaN. -/
def compare : Value → Value → Option Ordering
  | .str a, .str b => some (if a < b then .lt else if a = b then .eq else .gt)
  | a, b => compareFloats a.toNumber b.toNumber

/-! ### Arithmetic -/

def isNumeric : Value → Bool
  | .null | .bool _ | .num _ => true
  | _ => false

/-- A sum of numbers, or the joined texts when one side is not numeric. -/
def add (a b : Value) : Value :=
  if a.isNumeric && b.isNumeric then ofFloat (a.toNumber + b.toNumber)
  else .str (a.toText ++ b.toText)

def arithmetic (f : Float → Float → Float) (a b : Value) : Value :=
  ofFloat (f a.toNumber b.toNumber)

/-- The truth of a comparison. Values without an order make it false. -/
def ordered (accept : Ordering → Bool) (a b : Value) : Value :=
  .bool ((compare a b).any accept)

end Stencil.Value
