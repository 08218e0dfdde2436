import Stencil.Value

/-!
Tables of a TOML document while it is read.

A table may be defined once. What may still be added to one depends on how it came about, so
each table remembers that.
-/

namespace Stencil.Toml

/-- How a table came about: on the way to another header, by its own header, or through a
dotted key. -/
inductive Origin where
  | implied
  | header
  | dotted
deriving DecidableEq, Repr

/-- Whether a dotted key may lead into a table, or end in it. It ends only in a table that came
about through a dotted key, and leads through implied ones too. -/
def Origin.admits (o : Origin) (ends : Bool) : Bool :=
  o == .dotted || (o == .implied && !ends)

inductive Node where
  | value (v : Value)
  | table (origin : Origin) (entries : List (String × Node))
  | tables (items : List (List (String × Node)))

abbrev Table := Entries Node

/-- One more table for a header: its path, and whether it is an element of an array. -/
structure Header where
  path : List String
  element : Bool

namespace Table

/-- Changes the table a header path leads to. Of an array of tables that is the last one,
and a missing table is implied. -/
def under (f : Table → Option Table) : List String → Table → Option Table
  | [], t => f t
  | key :: path, t =>
    match Entries.find? t key with
    | none => do return Entries.put t key (.table .implied (← under f path []))
    | some (.table origin es) => do return Entries.put t key (.table origin (← under f path es))
    | some (.tables items) =>
      match items.getLast? with
      | some es => do return Entries.put t key (.tables (items.dropLast ++ [← under f path es]))
      | none => none
    | some (.value _) => none

/-- Defines a table by a header. It may exist only as an implied one. -/
def defineHere (key : String) (t : Table) : Option Table :=
  match Entries.find? t key with
  | none => some (Entries.put t key (.table .header []))
  | some (.table .implied es) => some (Entries.put t key (.table .header es))
  | some _ => none

/-- Appends a table to an array of tables. -/
def appendHere (key : String) (t : Table) : Option Table :=
  match Entries.find? t key with
  | none => some (Entries.put t key (.tables [[]]))
  | some (.tables items) => some (Entries.put t key (.tables (items ++ [[]])))
  | some _ => none

def define (t : Table) (h : Header) : Option Table := do
  let key ← h.path.getLast?
  under (if h.element then appendHere key else defineHere key) h.path.dropLast t

/-- Sets a new key, which may be dotted. It leads through the last table of an array, but does
not end there. -/
def setDotted (v : Value) : List String → Table → Option Table
  | [], _ => none
  | [key], t => if Entries.contains t key then none else some (Entries.put t key (.value v))
  | key :: path, t =>
    let ends := path.length == 1
    match Entries.find? t key with
    | none => do return Entries.put t key (.table .dotted (← setDotted v path []))
    | some (.table origin es) =>
      if origin.admits ends then do
        return Entries.put t key (.table origin (← setDotted v path es))
      else none
    | some (.tables items) =>
      match items.getLast? with
      | some es =>
        if ends then none
        else do return Entries.put t key (.tables (items.dropLast ++ [← setDotted v path es]))
      | none => none
    | some (.value _) => none

/-- Sets a key in the table of a header. -/
def set (t : Table) (header : List String) (path : List String) (v : Value) : Option Table :=
  under (setDotted v path) header t

end Table

/-! ### Values -/

/-- Entries in code point order of their names. -/
def sorted {α : Type} (es : Entries α) : Entries α := es.mergeSort fun a b => a.1 ≤ b.1

mutual

/-- The value of a finished table. Its entries are in order of their names. -/
def valueOf : Node → Value
  | .value v => v
  | .table _ es => .obj (sorted (valuesOf es))
  | .tables items => .arr (tableValues items)

def valuesOf : List (String × Node) → List (String × Value)
  | [] => []
  | (name, n) :: es => (name, valueOf n) :: valuesOf es

def tableValues : List (List (String × Node)) → List Value
  | [] => []
  | es :: rest => .obj (sorted (valuesOf es)) :: tableValues rest

end

/-- The entries of a finished document. -/
def Table.values (t : Table) : Entries Value := sorted (valuesOf t)

end Stencil.Toml
