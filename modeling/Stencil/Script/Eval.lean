import Stencil.Environment
import Stencil.Script.Expr

/-!
Evaluating expressions.

An evaluation reads the tiers and changes locals only. Changing a property of a value from an
outer tier changes a local copy of that value.
-/

namespace Stencil.Script

/-- An evaluation with the locals it starts from and ends with. -/
abbrev Eval := StateT Locals (Except EvalError)

namespace Eval

def ofProperty {α : Type} : Except PropertyError α → Eval α
  | .ok a => pure a
  | .error e => throw (.property e)

/-- Writes a value to a variable, or to the end of a path of keys in it. -/
def store (tiers : Tiers) (root : String) (path : List String) (v : Value) : Eval Unit := do
  match path with
  | [] => modify (Entries.put · root v)
  | key :: keys =>
    let (old, locals) ← tiers.localCopy (← get) root
    let new ← ofProperty (old.setPath key keys v)
    set (Entries.put locals root new)

end Eval

def UnaryOp.apply : UnaryOp → Value → Value
  | .not, v => .bool !v.isTruthy
  | .neg, v => .ofFloat (-v.toNumber)
  | .plus, v => .ofFloat v.toNumber

def BinaryOp.apply : BinaryOp → Value → Value → Value
  | .add => Value.add
  | .sub => Value.arithmetic (· - ·)
  | .mul => Value.arithmetic (· * ·)
  | .div => Value.arithmetic (· / ·)
  | .rem => Value.arithmetic Decimal.remainder
  | .eq => fun a b => .bool (Value.strictEquals a b)
  | .notEq => fun a b => .bool !Value.strictEquals a b
  | .less => Value.ordered Ordering.isLT
  | .lessEq => Value.ordered Ordering.isLE
  | .greater => Value.ordered Ordering.isGT
  | .greaterEq => Value.ordered Ordering.isGE

/-- Whether the left operand decides the result by itself. -/
def LogicalOp.decides : LogicalOp → Value → Bool
  | .and, v => !v.isTruthy
  | .or, v => v.isTruthy

def UpdateOp.apply : UpdateOp → Float → Float
  | .increment, f => f + 1
  | .decrement, f => f - 1

open Eval

mutual

def eval (tiers : Tiers) : Expr → Eval Value
  | .literal v => pure v
  | .ident name => do tiers.lookup (← get) name
  | .array items => do return .arr (← evalList tiers items)
  | .object entries => do return .obj (Entries.ofList (← evalEntries tiers entries))
  | .member target property => do
    let target ← eval tiers target
    ofProperty (target.getProperty property)
  | .index target key => do
    let target ← eval tiers target
    let key ← eval tiers key
    ofProperty (target.getIndex key)
  | .call name args => do
    let args ← evalList tiers args
    let f ← tiers.callee (← get) name
    match f args with
    | .ok v => pure v
    | .error message => throw (.helper name message)
  | .unary op operand => do return op.apply (← eval tiers operand)
  | .binary op left right => do
    let left ← eval tiers left
    let right ← eval tiers right
    return op.apply left right
  | .logical op left right => do
    let left ← eval tiers left
    if op.decides left then pure left else eval tiers right
  | .conditional test yes no => do
    let test ← eval tiers test
    if test.isTruthy then eval tiers yes else eval tiers no
  | .assign op target value => do
    let value ← eval tiers value
    let value ← match op with
      | .set => pure value
      | .add => (Value.add · value) <$> eval tiers target
      | .sub => (Value.arithmetic (· - ·) · value) <$> eval tiers target
    let (root, path) ← place tiers target
    store tiers root path value
    return value
  | .update op before target => do
    let old := (← eval tiers target).toNumber
    let new := op.apply old
    let (root, path) ← place tiers target
    store tiers root path (.ofFloat new)
    return .ofFloat (if before then new else old)
  | .sequence items => do return (← evalList tiers items).getLast?.getD .null

/-- The variable and the path of keys that an assignable expression stands for. -/
def place (tiers : Tiers) : Expr → Eval (String × List String)
  | .ident name => pure (name, [])
  | .member target property => do
    let (root, path) ← place tiers target
    return (root, path ++ [property])
  | .index target key => do
    let (root, path) ← place tiers target
    let key ← eval tiers key
    return (root, path ++ [key.propertyKey])
  | _ => throw (.property (.notAssignable "" "an expression"))

def evalList (tiers : Tiers) : List Expr → Eval (List Value)
  | [] => pure []
  | e :: es => do
    let v ← eval tiers e
    let vs ← evalList tiers es
    return v :: vs

def evalEntries (tiers : Tiers) : List (String × Expr) → Eval (List (String × Value))
  | [] => pure []
  | (name, e) :: es => do
    let v ← eval tiers e
    let vs ← evalEntries tiers es
    return (name, v) :: vs

end

end Stencil.Script
