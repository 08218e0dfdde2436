import Stencil.Decimal.Shortest
import Stencil.Script.Expr
import Stencil.Script.Fault

/-!
Readers over a list of items.

A reader consumes items from the front and answers with a result, or fails where it stands.
-/

namespace Stencil.Script

/-- A cause and the line of the item it was found at, without a line at the end. -/
structure Failure where
  cause : Cause
  line? : Option Nat
deriving DecidableEq, Repr

abbrev Reader := StateT (List Item) (Except Failure)

namespace Reader

def fail {α : Type} (cause : Cause) : Reader α := fun items =>
  .error ⟨cause, items.head?.map Item.line⟩

/-- The words for the next item in a message. -/
def describe : List Item → String
  | [] => "end of template"
  | .emit (.literal _) _ :: _ => "template text"
  | .emit _ _ :: _ => "an output tag"
  | .token t :: _ =>
    match t.kind with
    | .ident name => "'" ++ name ++ "'"
    | .number f => "number " ++ Decimal.text f
    | .str _ => "a string"
    | .punct p => "'" ++ p.text ++ "'"

/-- Fails with a cause that tells what was found. -/
def failFound {α : Type} (cause : String → Cause) : Reader α := fun items =>
  fail (cause (describe items)) items

/-- The kind of the next item if it is a token. -/
def peek? : Reader (Option TokenKind) := fun items =>
  match items with
  | .token t :: _ => .ok (some t.kind, items)
  | _ => .ok (none, items)

def peekIs (p : Punct) : Reader Bool := do return (← peek?) == some (.punct p)

/-- Drops the next item. -/
def advance : Reader Unit := modify List.tail

/-- Consumes a punctuation mark if it comes next. -/
def eat (p : Punct) : Reader Bool := do
  if ← peekIs p then
    advance
    return true
  else
    return false

def expect (p : Punct) : Reader Unit := do
  unless ← eat p do failFound (.expectedPunct p)

/-- Runs a loop with a bound above the number of its rounds, each of which consumes an
item. -/
def bounded {α : Type} (loop : Nat → Reader α) : Reader α := do
  loop ((← get).length + 1)

/-- Runs a reader on all items and places its failure. A failure at the end is on the line of
the last item. -/
def runOn {α : Type} (r : Reader α) (items : List Item) : Except Fault α :=
  match r items with
  | .ok (a, _) => .ok a
  | .error f =>
    .error ⟨f.cause, f.line?.getD ((items.getLast?.map Item.line).getD 1)⟩

end Reader

end Stencil.Script
