import Stencil.Value.Operator

/-!
Properties of values: reading one by name or index, and writing one along a path of keys.
-/

namespace Stencil

/-- Why a property could not be read or written. -/
inductive PropertyError where
  | ofNull (property : String)
  | notAssignable (property : String) (target : String)
deriving DecidableEq, Repr

namespace Value

/-- Positions are the whole numbers of 64 bits. -/
def position? (property : String) : Option Nat := Decimal.readNat? (Nat.pow 2 64) property.toList

/-- The element a property name designates in a sequence. -/
def element? {α : Type} (items : List α) (property : String) : Option α :=
  (position? property).bind (items[·]?)

/-- The property of a value. A missing one reads as null, and null itself has none. -/
def getProperty (target : Value) (property : String) : Except PropertyError Value :=
  match target with
  | .null => .error (.ofNull property)
  | .obj es => .ok ((Entries.find? es property).getD .null)
  | .arr items =>
    if property = "length" then .ok (int items.length)
    else .ok ((element? items property).getD .null)
  | .str s =>
    if property = "length" then .ok (int s.length)
    else .ok (((element? s.toList property).map fun c => .str (String.singleton c)).getD .null)
  | .bool _ | .num _ => .ok .null

/-- The property name an index value designates. -/
def propertyKey (key : Value) : String := key.toText

def getIndex (target key : Value) : Except PropertyError Value :=
  target.getProperty key.propertyKey

/-! ### Writing -/

/-- The child a write descends into. It has to exist and must not be null. -/
def child (target : Value) (key : String) : Except PropertyError Value :=
  match target with
  | .obj es => present (Entries.find? es key)
  | .arr items => present (element? items key)
  | v => .error (.notAssignable key v.typeName)
where
  present : Option Value → Except PropertyError Value
    | none | some .null => .error (.ofNull key)
    | some v => .ok v

/-- The value with one property written. An array grows by one element at most. -/
def setProperty (target : Value) (key : String) (v : Value) : Except PropertyError Value :=
  match target with
  | .null => .error (.ofNull key)
  | .obj es => .ok (.obj (Entries.put es key v))
  | .arr items =>
    match position? key with
    | none => .error (.notAssignable key "array")
    | some i =>
      if i < items.length then .ok (.arr (items.set i v))
      else if i = items.length then .ok (.arr (items ++ [v]))
      else .error (.notAssignable key "array")
  | other => .error (.notAssignable key other.typeName)

/-- The value with the property at the end of a path written. The path is a key and the
keys after it. -/
def setPath (target : Value) (key : String) (keys : List String) (v : Value) :
    Except PropertyError Value :=
  match keys with
  | [] => target.setProperty key v
  | next :: rest => do
    let inner ← target.child key
    let inner ← inner.setPath next rest v
    target.setProperty key inner

end Value

end Stencil
