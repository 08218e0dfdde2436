import Stencil.Script.Reader
import Stencil.Script.Token.Reader
import Stencil.Value.Coercion

/-!
Reading expressions.

The readers of one nesting level are built from those of the next level down, which they use
for whatever they nest. At the last level nothing can be nested any more.
-/

namespace Stencil.Script

/-- The readers that lead into a deeper level: a whole assignment, and the operand of a
prefix operator. -/
structure Level where
  assignment : Reader Expr
  operand : Reader Expr

namespace Level

open Reader

/-! ### Lists -/

/-- Further expressions, each after a comma. -/
def commas (inner : Level) : Nat → Reader (List Expr)
  | 0 => pure []
  | n + 1 => do
    if ← eat .comma then
      let e ← inner.assignment
      return e :: (← commas inner n)
    else
      return []

/-- One expression, or several in sequence. -/
def expression (inner : Level) : Reader Expr := do
  let first ← inner.assignment
  match ← bounded (commas inner) with
  | [] => return first
  | more => return .sequence (first :: more)

/-- Elements up to a closing mark. A comma may follow the last one. -/
def elements (inner : Level) (close : Punct) : Nat → Reader (List Expr)
  | 0 => pure []
  | n + 1 => do
    if ← eat close then
      return []
    else
      let e ← inner.assignment
      if ← eat .comma then
        return e :: (← elements inner close n)
      else
        expect close
        return [e]

/-- The name of a property in an object: a word, a string or the text of a number. -/
def entryName : Reader String := do
  match ← peek? with
  | some (.ident name) | some (.str name) => advance; return name
  | some (.number f) => advance; return (Value.ofFloat f).toText
  | _ => failFound .expectedProperty

def entries (inner : Level) : Nat → Reader (List (String × Expr))
  | 0 => pure []
  | n + 1 => do
    if ← eat .closeBrace then
      return []
    else
      let name ← entryName
      expect .colon
      let e ← inner.assignment
      if ← eat .comma then
        return (name, e) :: (← entries inner n)
      else
        expect .closeBrace
        return [(name, e)]

/-! ### Operands -/

/-- The expression a word stands for. -/
def word (name : String) : Reader Expr := do
  if name = "true" then
    advance
    return .literal (.bool true)
  else if name = "false" then
    advance
    return .literal (.bool false)
  else if name = "null" ∨ name = "undefined" then
    advance
    return .literal .null
  else if name ∈ reserved then
    fail (.keyword name)
  else
    advance
    return .ident name

def primary (inner : Level) : Reader Expr := do
  match ← peek? with
  | some (.number f) => advance; return .literal (.ofFloat f)
  | some (.str s) => advance; return .literal (.str s)
  | some (.ident name) => word name
  | some (.punct .openParen) =>
    advance
    let e ← expression inner
    expect .closeParen
    return e
  | some (.punct .openBracket) =>
    advance
    return .array (← bounded (elements inner .closeBracket))
  | some (.punct .openBrace) =>
    advance
    return .object (← bounded (entries inner))
  | _ => failFound .expectedExpression

/-- The steps after a primary expression: members, indices and calls. -/
def steps (inner : Level) : Nat → Expr → Reader Expr
  | 0, e => pure e
  | n + 1, e => do
    match ← peek? with
    | some (.punct .dot) =>
      advance
      match ← peek? with
      | some (.ident name) => advance; steps inner n (.member e name)
      | _ => failFound .expectedProperty
    | some (.punct .openBracket) =>
      advance
      let key ← expression inner
      expect .closeBracket
      steps inner n (.index e key)
    | some (.punct .openParen) =>
      match e with
      | .ident name =>
        advance
        let args ← bounded (elements inner .closeParen)
        steps inner n (.call name args)
      | _ => fail .callee
    | _ => pure e

def stepped (inner : Level) : Reader Expr := do
  let e ← primary inner
  bounded fun n => steps inner n e

def unaryOp? : TokenKind → Option UnaryOp
  | .punct .bang => some .not
  | .punct .minus => some .neg
  | .punct .plus => some .plus
  | _ => none

def updateOp? : TokenKind → Option UpdateOp
  | .punct .plusPlus => some .increment
  | .punct .minusMinus => some .decrement
  | _ => none

def update (op : UpdateOp) (before : Bool) (target : Expr) : Reader Expr :=
  if target.isAssignable then pure (.update op before target) else fail .updateTarget

/-- An operand with the operators that stand directly before or after it. -/
def unary (inner : Level) : Reader Expr := do
  let kind ← peek?
  match kind.bind unaryOp?, kind.bind updateOp? with
  | some op, _ =>
    advance
    return .unary op (← inner.operand)
  | none, some op =>
    advance
    update op true (← inner.operand)
  | none, none =>
    let e ← stepped inner
    match (← peek?).bind updateOp? with
    | some op =>
      advance
      update op false e
    | none => return e

/-! ### Operators between operands -/

/-- What an operator makes of its two sides. -/
abbrev Joiner := Expr → Expr → Expr

/-- The operators of one precedence. -/
abbrev Tier := TokenKind → Option Joiner

/-- The tiers from the loosest to the tightest. -/
def tiers : List Tier :=
  [fun | .punct .orOr => some (.logical .or)
       | _ => none,
   fun | .punct .andAnd => some (.logical .and)
       | _ => none,
   fun | .punct .eqEq | .punct .eqEqEq => some (.binary .eq)
       | .punct .notEq | .punct .notEqEq => some (.binary .notEq)
       | _ => none,
   fun | .punct .less => some (.binary .less)
       | .punct .lessEq => some (.binary .lessEq)
       | .punct .greater => some (.binary .greater)
       | .punct .greaterEq => some (.binary .greaterEq)
       | _ => none,
   fun | .punct .plus => some (.binary .add)
       | .punct .minus => some (.binary .sub)
       | _ => none,
   fun | .punct .star => some (.binary .mul)
       | .punct .slash => some (.binary .div)
       | .punct .percent => some (.binary .rem)
       | _ => none]

/-- Further operands of a tier, joined to the left. -/
def joined (tier : Tier) (operand : Reader Expr) : Nat → Expr → Reader Expr
  | 0, left => pure left
  | n + 1, left => do
    match (← peek?).bind tier with
    | some join =>
      advance
      let right ← operand
      joined tier operand n (join left right)
    | none => pure left

def chain (tier : Tier) (operand : Reader Expr) : Reader Expr := do
  let left ← operand
  bounded fun n => joined tier operand n left

def binary (inner : Level) : Reader Expr := tiers.foldr chain (unary inner)

def conditional (inner : Level) : Reader Expr := do
  let test ← binary inner
  if ← eat .question then
    let yes ← inner.assignment
    expect .colon
    let no ← inner.assignment
    return .conditional test yes no
  else
    return test

def assignOp? : TokenKind → Option AssignOp
  | .punct .assign => some .set
  | .punct .plusEq => some .add
  | .punct .minusEq => some .sub
  | _ => none

def assigned (inner : Level) : Reader Expr := do
  let target ← conditional inner
  match (← peek?).bind assignOp? with
  | some op =>
    if target.isAssignable then
      advance
      return .assign op target (← inner.assignment)
    else
      fail .assignmentTarget
  | none => return target

/-! ### Nesting -/

/-- The readers when the given number of levels may still be nested. -/
def ofDepth : Nat → Level
  | 0 => ⟨fail .tooDeep, fail .tooDeep⟩
  | n + 1 =>
    let inner := ofDepth n
    ⟨assigned inner, unary inner⟩

end Level

/-! ### Whole expressions -/

def completeExpression : Reader Expr := do
  let e ← (Level.ofDepth maxNesting).expression
  if (← get).isEmpty then return e else Reader.failFound .afterExpression

/-- The expression a piece of code on the given line consists of. -/
def parseExpression (source : String) (line : Nat) : Except Fault Expr := do
  let tokens ← tokenize source line
  if tokens.isEmpty then .error ⟨.emptyExpression, line⟩
  else completeExpression.runOn (tokens.map .token)

end Stencil.Script
