import Stencil.Decimal.Reading
import Stencil.Pattern

/-!
Replacing every match of a pattern.

A replacement is text with references to the groups of the match. A group that took no part
stands for no text.
-/

namespace Stencil.Pattern

inductive Piece where
  | text (cs : List Char)
  | group (index : Nat)
deriving DecidableEq, Repr

abbrev Replacement := List Piece

/-! ### Reading -/

def isReferenceChar (c : Char) : Bool := c.isAlphanum || c == '_'

/-- The pieces for a reference. Groups have numbers only, so that any other name refers to
none of them. -/
def reference (name : List Char) : List Piece :=
  match Decimal.readNat? (Nat.pow 2 32) name with
  | some i => [.group i]
  | none => []

/-- Reads the references in a text. A dollar sign that starts none stands for itself, and
two of them for one. The bound is the number of characters that are left. -/
def readWithin : Nat → List Char → List Piece
  | _, [] => []
  | 0, _ => []
  | n + 1, '$' :: '$' :: rest => .text ['$'] :: readWithin n rest
  | n + 1, '$' :: '{' :: rest =>
    match rest.span (· != '}') with
    | (name, '}' :: after) => reference name ++ readWithin n after
    | _ => .text ['$'] :: readWithin n ('{' :: rest)
  | n + 1, '$' :: rest =>
    match rest.span isReferenceChar with
    | ([], _) => .text ['$'] :: readWithin n rest
    | (name, after) => reference name ++ readWithin n after
  | n + 1, c :: rest => .text [c] :: readWithin n rest

def Replacement.read (source : String) : Replacement :=
  readWithin source.toList.length source.toList

/-! ### Replacing -/

/-- The text a replacement stands for at a match. -/
def Replacement.expand (r : Replacement) (captures : Captures) : List Char :=
  r.flatMap fun
    | .text cs => cs
    | .group i => (captures.lookup i).getD []

/-- Copies the character at a position, if there is one, and goes on after it. -/
def copyOne (next : Cursor → List Char) (c : Cursor) : List Char :=
  match c.rest with
  | [] => []
  | ch :: rest => ch :: next ⟨ch :: c.before, rest⟩

/-- Replaces the matches from a position on. An empty match right after the previous match
does not count. The bound is one more than the number of characters that are left. -/
def replaceWithin (p : Pattern) (r : Replacement) : Nat → Bool → Cursor → List Char
  | 0, _, c => c.rest
  | n + 1, afterMatch, c =>
    match p.matchAt? c with
    | none => copyOne (replaceWithin p r n false) c
    | some s =>
      if s.cursor.rest.length < c.rest.length then
        r.expand s.captures ++ replaceWithin p r n true s.cursor
      else if afterMatch then copyOne (replaceWithin p r n false) c
      else r.expand s.captures ++ copyOne (replaceWithin p r n false) c

/-- The text with every match replaced. -/
def replaceAll (p : Pattern) (r : Replacement) (text : String) : String :=
  let cs := text.toList
  String.ofList (replaceWithin p r (cs.length + 1) false ⟨[], cs⟩)

end Stencil.Pattern
