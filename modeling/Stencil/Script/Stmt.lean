import Stencil.Script.Expr

/-!
Statements of the script language, and programs.
-/

namespace Stencil.Script

inductive Stmt where
  | output (o : Output)
  | expr (e : Expr)
  | declare (bindings : List (String × Option Expr))
  | block (body : List Stmt)
  | branch (test : Expr) (yes : Stmt) (no : Option Stmt)
  | forLoop (init : Option Stmt) (test update : Option Expr) (body : Stmt)
  | whileLoop (test : Expr) (body : Stmt)
  | leave
  | resume
  | empty
deriving Inhabited

structure Program where
  body : List Stmt

end Stencil.Script
