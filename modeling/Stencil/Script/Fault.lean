import Stencil.Script.Token

/-!
What can be wrong with a script, and where.
-/

namespace Stencil.Script

/-- How many statements, assignments and operands of unary operators may be nested. -/
def maxNesting : Nat := 128

inductive Cause where
  | unexpectedChar (c : Char)
  | unterminatedString
  | unterminatedComment
  | invalidNumber (text : String)
  | unmatchedBrace
  | unclosedBlock
  | emptyExpression
  | afterExpression (found : String)
  | expectedPunct (p : Punct) (found : String)
  | expectedExpression (found : String)
  | expectedVariable (found : String)
  | expectedProperty (found : String)
  | keyword (word : String)
  | tooDeep
  | outsideLoop (word : String)
  | elseWithoutIf
  | assignmentTarget
  | updateTarget
  | callee
deriving DecidableEq, Repr

/-- A fault and the line it is on. -/
structure Fault where
  cause : Cause
  line : Nat
deriving DecidableEq, Repr

def Cause.message : Cause → String
  | unexpectedChar c => "unexpected character '" ++ String.singleton c ++ "'"
  | unterminatedString => "unterminated string"
  | unterminatedComment => "unterminated comment"
  | invalidNumber text => "invalid number '" ++ text ++ "'"
  | unmatchedBrace => "unexpected '\x7d' without a matching '\x7b'"
  | unclosedBlock => "missing '\x7d' to close block"
  | emptyExpression => "expected an expression"
  | afterExpression found => "unexpected " ++ found ++ " after expression"
  | expectedPunct p found => "expected '" ++ p.text ++ "' but found " ++ found
  | expectedExpression found => "expected an expression but found " ++ found
  | expectedVariable found => "expected a variable name but found " ++ found
  | expectedProperty found => "expected a property name but found " ++ found
  | keyword word => "unexpected keyword '" ++ word ++ "'"
  | tooDeep => "nesting deeper than " ++ maxNesting.repr ++ " levels"
  | outsideLoop word => "'" ++ word ++ "' outside of a loop"
  | elseWithoutIf => "'else' without a matching 'if'"
  | assignmentTarget => "invalid assignment target"
  | updateTarget => "invalid increment/decrement target"
  | callee => "only named helpers can be called"

end Stencil.Script
