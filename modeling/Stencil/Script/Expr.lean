import Stencil.Script.Token
import Stencil.Value

/-!
Expressions of the script language.
-/

namespace Stencil.Script

inductive UnaryOp where
  | not | neg | plus
deriving DecidableEq, Repr

inductive BinaryOp where
  | add | sub | mul | div | rem | eq | notEq | less | lessEq | greater | greaterEq
deriving DecidableEq, Repr

inductive LogicalOp where
  | and | or
deriving DecidableEq, Repr

inductive AssignOp where
  | set | add | sub
deriving DecidableEq, Repr

inductive UpdateOp where
  | increment | decrement
deriving DecidableEq, Repr

inductive Expr where
  | literal (v : Value)
  | ident (name : String)
  | array (items : List Expr)
  | object (entries : List (String × Expr))
  | member (target : Expr) (property : String)
  | index (target key : Expr)
  | call (name : String) (args : List Expr)
  | unary (op : UnaryOp) (operand : Expr)
  | binary (op : BinaryOp) (left right : Expr)
  | logical (op : LogicalOp) (left right : Expr)
  | conditional (test yes no : Expr)
  | assign (op : AssignOp) (target value : Expr)
  | update (op : UpdateOp) (before : Bool) (target : Expr)
  | sequence (items : List Expr)
deriving Inhabited

/-- A variable, or a property of something assignable. -/
def Expr.isAssignable : Expr → Bool
  | .ident _ => true
  | .member target _ => target.isAssignable
  | .index target _ => target.isAssignable
  | _ => false

/-- What a template writes: its own text, or the value of an expression. -/
inductive Output where
  | literal (text : String)
  | escaped (e : Expr)
  | raw (e : Expr)

/-- An item a program is read from: a token of a statement tag, or an output. -/
inductive Item where
  | token (t : Token)
  | emit (o : Output) (line : Nat)

def Item.line : Item → Nat
  | .token t => t.line
  | .emit _ line => line

end Stencil.Script
