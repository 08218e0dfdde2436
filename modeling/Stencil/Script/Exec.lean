import Stencil.Script.Eval
import Stencil.Script.Stmt
import Stencil.Text.Entity

/-!
Running programs.

A run appends to its output and may repeat statements without end, so it is given a bound on
the rounds of each loop. It answers with nothing when a loop would go beyond the bound.
-/

namespace Stencil.Script

/-- What a run has written and the locals it has. -/
structure Frame where
  locals : Locals
  out : String

abbrev Exec := StateT Frame (ExceptT EvalError Option)

/-- How a statement ends: normally, by leaving the loop around it, or by going on with the
next round of that loop. -/
inductive Flow where
  | normal | leave | resume
deriving DecidableEq, Repr

namespace Exec

/-- A run that goes beyond its bound. -/
def beyond {α : Type} : Exec α := fun _ => (none : Option (Except EvalError (α × Frame)))

def ofEval {α : Type} (x : Eval α) : Exec α := fun frame =>
  match x frame.locals with
  | .ok (a, locals) => pure (a, { frame with locals })
  | .error e => throw e

def write (text : String) : Exec Unit := modify fun frame => { frame with out := frame.out ++ text }

/-- Repeats a round for as long as it asks for another one. -/
def rounds : Nat → Exec Bool → Exec Unit
  | 0, _ => beyond
  | n + 1, round => do if ← round then rounds n round else pure ()

end Exec

open Exec

/-- Whether an optional condition holds. An absent one does. -/
def holds (tiers : Tiers) : Option Expr → Eval Bool
  | none => pure true
  | some e => do return (← eval tiers e).isTruthy

def evalOption (tiers : Tiers) : Option Expr → Eval (Option Value)
  | none => pure none
  | some e => some <$> eval tiers e

def declareAll (tiers : Tiers) : List (String × Option Expr) → Eval Unit
  | [] => pure ()
  | (name, init) :: rest => do
    let value ← evalOption tiers init
    modify (tiers.declare · name value)
    declareAll tiers rest

def writeOutput (tiers : Tiers) : Output → Exec Unit
  | .literal text => write text
  | .escaped e => do
    let v ← ofEval (eval tiers e)
    write (Text.escapeText v.toText)
  | .raw e => do
    let v ← ofEval (eval tiers e)
    write v.toText

/-- One round of a loop: the test, the body and the update. It asks for another round unless
the test fails or the body leaves the loop. -/
def loopRound (tiers : Tiers) (test update : Option Expr) (body : Exec Flow) : Exec Bool := do
  if ← ofEval (holds tiers test) then
    if (← body) = .leave then
      return false
    else
      discard <| ofEval (evalOption tiers update)
      return true
  else
    return false

mutual

def exec (tiers : Tiers) (bound : Nat) : Stmt → Exec Flow
  | .output o => do
    writeOutput tiers o
    return .normal
  | .expr e => do
    discard <| ofEval (eval tiers e)
    return .normal
  | .declare bindings => do
    ofEval (declareAll tiers bindings)
    return .normal
  | .block body => execAll tiers bound body
  | .branch test yes no => do
    let v ← ofEval (eval tiers test)
    if v.isTruthy then exec tiers bound yes else execOption tiers bound no
  | .forLoop init test update body => do
    discard <| execOption tiers bound init
    rounds bound (loopRound tiers test update (exec tiers bound body))
    return .normal
  | .whileLoop test body => do
    rounds bound (loopRound tiers (some test) none (exec tiers bound body))
    return .normal
  | .leave => pure .leave
  | .resume => pure .resume
  | .empty => pure .normal

def execOption (tiers : Tiers) (bound : Nat) : Option Stmt → Exec Flow
  | none => pure .normal
  | some s => exec tiers bound s

/-- Runs statements up to the first that does not end normally. -/
def execAll (tiers : Tiers) (bound : Nat) : List Stmt → Exec Flow
  | [] => pure .normal
  | s :: rest => do
    let flow ← exec tiers bound s
    if flow = .normal then execAll tiers bound rest else pure flow

end

/-- Runs the statements of a program, however each of them ends. -/
def execTop (tiers : Tiers) (bound : Nat) : List Stmt → Exec Unit
  | [] => pure ()
  | s :: rest => do
    discard <| exec tiers bound s
    execTop tiers bound rest

/-- What a program writes. -/
def run (tiers : Tiers) (bound : Nat) (p : Program) : Option (Except EvalError String) :=
  match (execTop tiers bound p.body ⟨[], ""⟩ : Option (Except EvalError (Unit × Frame))) with
  | none => none
  | some (.error e) => some (.error e)
  | some (.ok (_, frame)) => some (.ok frame.out)

end Stencil.Script
