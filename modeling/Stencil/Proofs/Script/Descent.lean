import Stencil.Proofs.Script.Reading
import Stencil.Script.Stmt.Reader

/-!
Recursive descent with a cursor.

A descent moves a cursor over the items and counts the levels and the loops that are open. Its
functions call each other and repeat their loops for as long as the items ask for it. So each of
them is told how many calls may be open in it, and it has not ended if it would need more. What has
been counted is still there when a descent fails.
-/

namespace Stencil.Script

/-! ### Cursors -/

/-- Where a descent stands: how many items it has taken, how many levels and how many loops are
open, and how many levels have been open at most. -/
structure Cursor where
  position : ℕ
  depth : ℕ
  loops : ℕ
  deepest : ℕ

namespace Cursor

/-- Before all items. -/
def start : Cursor := ⟨0, 0, 0, 0⟩

def forward (c : Cursor) : Cursor := { c with position := c.position + 1 }

def openLevel (c : Cursor) : Cursor :=
  { c with depth := c.depth + 1, deepest := max c.deepest (c.depth + 1) }

def closeLevel (c : Cursor) : Cursor := { c with depth := c.depth - 1 }

def openLoop (c : Cursor) : Cursor := { c with loops := c.loops + 1 }

def closeLoop (c : Cursor) : Cursor := { c with loops := c.loops - 1 }

/-- The items that are left. -/
def rest (c : Cursor) (items : List Item) : List Item := items.drop c.position

end Cursor

/-- A computation that moves a cursor. It may fail, and it may not have ended. -/
abbrev Descent := ExceptT Fault (StateT Cursor Option)

namespace Descent

variable {α : Type} (items : List Item)

/-! ### Steps -/

/-- A call that is one too many. -/
def unended : Descent α := fun _ => none

/-- Fails on the line of the next item, or of the last one at the end. -/
def fail (cause : Cause) : Descent α := fun c =>
  some (.error ⟨cause, ((items[c.position]?.or items.getLast?).map Item.line).getD 1⟩, c)

/-- Fails with a cause that tells what was found. -/
def failFound (cause : String → Cause) : Descent α := fun c =>
  fail items (cause (Reader.describe (c.rest items))) c

/-- The items that are left. -/
def rest : Descent (List Item) := fun c => some (.ok (c.rest items), c)

def atEnd : Descent Bool := fun c => some (.ok (decide (items.length ≤ c.position)), c)

/-- The kind of the next item if it is a token. -/
def peek? : Descent (Option TokenKind) := fun c => some (.ok (Reader.next? (c.rest items)), c)

def peekIs (p : Punct) : Descent Bool := do return (← peek? items) == some (.punct p)

def advance : Descent Unit := fun c => some (.ok (), c.forward)

def eat (p : Punct) : Descent Bool := do
  if ← peekIs items p then
    advance
    return true
  else
    return false

def expect (p : Punct) : Descent Unit := do
  unless ← eat items p do failFound items (.expectedPunct p)

/-- A call with one more level open, if there may be one more. The level is closed however the call
ends. -/
def nested (x : Descent α) : Descent α := fun c =>
  if c.depth < maxNesting then Prod.map id Cursor.closeLevel <$> x c.openLevel
  else fail items .tooDeep c

/-- A call with one more loop open. The loop is closed however the call ends. -/
def looped (x : Descent α) : Descent α := fun c => Prod.map id Cursor.closeLoop <$> x c.openLoop

/-! ### Expressions -/

/-- The precedence of an operator and what it makes of its two sides. -/
def operator? : TokenKind → Option (ℕ × Level.Joiner)
  | .punct .orOr => some (1, .logical .or)
  | .punct .andAnd => some (2, .logical .and)
  | .punct .eqEq | .punct .eqEqEq => some (3, .binary .eq)
  | .punct .notEq | .punct .notEqEq => some (3, .binary .notEq)
  | .punct .less => some (4, .binary .less)
  | .punct .lessEq => some (4, .binary .lessEq)
  | .punct .greater => some (4, .binary .greater)
  | .punct .greaterEq => some (4, .binary .greaterEq)
  | .punct .plus => some (5, .binary .add)
  | .punct .minus => some (5, .binary .sub)
  | .punct .star => some (6, .binary .mul)
  | .punct .slash => some (6, .binary .div)
  | .punct .percent => some (6, .binary .rem)
  | _ => none

def update (op : UpdateOp) (before : Bool) (target : Expr) : Descent Expr :=
  if target.isAssignable then pure (.update op before target) else fail items .updateTarget

/-- The expression a word stands for. -/
def word (name : String) : Descent Expr := do
  if name = "true" then
    advance
    return .literal (.bool true)
  else if name = "false" then
    advance
    return .literal (.bool false)
  else if name = "null" ∨ name = "undefined" then
    advance
    return .literal .null
  else if name ∈ reserved then
    fail items (.keyword name)
  else
    advance
    return .ident name

def entryName : Descent String := do
  match ← peek? items with
  | some (.ident name) | some (.str name) => advance; return name
  | some (.number f) => advance; return (Value.ofFloat f).toText
  | _ => failFound items .expectedProperty

mutual

def expression : ℕ → Descent Expr
  | 0 => unended
  | n + 1 => do
    let first ← assignment n
    match ← commas n with
    | [] => return first
    | more => return .sequence (first :: more)

/-- Repeats for as long as there is a comma. -/
def commas : ℕ → Descent (List Expr)
  | 0 => unended
  | n + 1 => do
    if ← eat items .comma then
      let e ← assignment n
      return e :: (← commas n)
    else
      return []

def assignment : ℕ → Descent Expr
  | 0 => unended
  | n + 1 => nested items (assigned n)

def assigned : ℕ → Descent Expr
  | 0 => unended
  | n + 1 => do
    let target ← conditional n
    match (← peek? items).bind Level.assignOp? with
    | some op =>
      if target.isAssignable then
        advance
        return .assign op target (← assignment n)
      else
        fail items .assignmentTarget
    | none => return target

def conditional : ℕ → Descent Expr
  | 0 => unended
  | n + 1 => do
    let test ← binary n 1
    if ← eat items .question then
      let yes ← assignment n
      expect items .colon
      let no ← assignment n
      return .conditional test yes no
    else
      return test

/-- An operand and what operators of at least a precedence join to it. -/
def binary : ℕ → ℕ → Descent Expr
  | 0, _ => unended
  | n + 1, least => do
    let left ← unary n
    climb n least left

/-- Repeats for as long as there is an operator of at least the precedence. -/
def climb : ℕ → ℕ → Expr → Descent Expr
  | 0, _, _ => unended
  | n + 1, least, left => do
    match (← peek? items).bind operator? with
    | some (precedence, join) =>
      if precedence < least then return left
      else
        advance
        let right ← binary n (precedence + 1)
        climb n least (join left right)
    | none => return left

def unary : ℕ → Descent Expr
  | 0 => unended
  | n + 1 => do
    let kind ← peek? items
    match kind.bind Level.unaryOp?, kind.bind Level.updateOp? with
    | some op, _ =>
      advance
      return .unary op (← operand n)
    | none, some op =>
      advance
      update items op true (← operand n)
    | none, none =>
      let e ← stepped n
      match (← peek? items).bind Level.updateOp? with
      | some op =>
        advance
        update items op false e
      | none => return e

def operand : ℕ → Descent Expr
  | 0 => unended
  | n + 1 => nested items (unary n)

def stepped : ℕ → Descent Expr
  | 0 => unended
  | n + 1 => do
    let e ← primary n
    steps n e

/-- Repeats for as long as there is a member, an index or a call. -/
def steps : ℕ → Expr → Descent Expr
  | 0, _ => unended
  | n + 1, e => do
    match ← peek? items with
    | some (.punct .dot) =>
      advance
      match ← peek? items with
      | some (.ident name) => advance; steps n (.member e name)
      | _ => failFound items .expectedProperty
    | some (.punct .openBracket) =>
      advance
      let key ← expression n
      expect items .closeBracket
      steps n (.index e key)
    | some (.punct .openParen) => called n e
    | _ => return e

/-- A call of what has been read. -/
def called : ℕ → Expr → Descent Expr
  | 0, _ => unended
  | n + 1, .ident name => do
    advance
    let args ← elements n .closeParen
    steps n (.call name args)
  | _ + 1, _ => fail items .callee

/-- Repeats up to a closing mark. -/
def elements : ℕ → Punct → Descent (List Expr)
  | 0, _ => unended
  | n + 1, close => do
    if ← eat items close then
      return []
    else
      let e ← assignment n
      if ← eat items .comma then
        return e :: (← elements n close)
      else
        expect items close
        return [e]

def primary : ℕ → Descent Expr
  | 0 => unended
  | n + 1 => do
    match ← peek? items with
    | some (.number f) => advance; return .literal (.ofFloat f)
    | some (.str s) => advance; return .literal (.str s)
    | some (.ident name) => word items name
    | some (.punct .openParen) =>
      advance
      let e ← expression n
      expect items .closeParen
      return e
    | some (.punct .openBracket) =>
      advance
      return .array (← elements n .closeBracket)
    | some (.punct .openBrace) =>
      advance
      return .object (← entries n)
    | _ => failFound items .expectedExpression

/-- Repeats up to a closing brace. -/
def entries : ℕ → Descent (List (String × Expr))
  | 0 => unended
  | n + 1 => do
    if ← eat items .closeBrace then
      return []
    else
      let name ← entryName items
      expect items .colon
      let e ← assignment n
      if ← eat items .comma then
        return (name, e) :: (← entries n)
      else
        expect items .closeBrace
        return [(name, e)]

end

/-- Nothing may come after an expression. -/
def completeExpression (n : ℕ) : Descent Expr := do
  let e ← expression items n
  if ← atEnd items then return e else failFound items .afterExpression

/-! ### Statements -/

def condition (n : ℕ) : Descent Expr := do
  expect items .openParen
  let test ← expression items n
  expect items .closeParen
  return test

def bindingName : Descent String := do
  match ← peek? items with
  | some (.ident name) =>
    if name ∈ reserved then failFound items .expectedVariable
    else
      advance
      return name
  | _ => failFound items .expectedVariable

/-- Repeats for as long as there is a comma. -/
def bindings : ℕ → Descent (List (String × Option Expr))
  | 0 => unended
  | n + 1 => do
    let name ← bindingName items
    let init ← if ← eat items .assign then some <$> assignment items n else pure none
    if ← eat items .comma then
      return (name, init) :: (← bindings n)
    else
      return [(name, init)]

/-- A declaration with its keyword. -/
def declaration (n : ℕ) : Descent Stmt := do
  advance
  return .declare (← bindings items n)

def clause (mark : Punct) (n : ℕ) : Descent (Option Expr) := do
  if ← peekIs items mark then return none else return some (← expression items n)

def initial (n : ℕ) : Descent (Option Stmt) := do
  if ← peekIs items .semicolon then
    return none
  else if declares (← peek? items) then
    return some (← declaration items n)
  else
    return some (.expr (← expression items n))

def ended (s : Stmt) : Descent Stmt := do
  discard <| eat items .semicolon
  return s

def jump (word : String) (s : Stmt) : Descent Stmt := do
  if (← get).loops = 0 then
    fail items (.outsideLoop word)
  else
    advance
    ended items s

def expressionStatement (n : ℕ) : Descent Stmt := do
  ended items (.expr (← expression items n))

mutual

def statement : ℕ → Descent Stmt
  | 0 => unended
  | n + 1 => nested items (statementBody n)

def statementBody : ℕ → Descent Stmt
  | 0 => unended
  | n + 1 => do
    match ← rest items with
    | .emit o _ :: _ =>
      advance
      return .output o
    | .token ⟨.punct .semicolon, _⟩ :: _ =>
      advance
      return .empty
    | .token ⟨.punct .openBrace, _⟩ :: _ =>
      advance
      return .block (← blockRest n)
    | .token ⟨.ident word, _⟩ :: _ => wordStatement n word
    | _ => expressionStatement items n

/-- Repeats up to a closing brace. -/
def blockRest : ℕ → Descent (List Stmt)
  | 0 => unended
  | n + 1 => do
    if ← eat items .closeBrace then
      return []
    else if ← atEnd items then
      fail items .unclosedBlock
    else
      let s ← statement n
      return s :: (← blockRest n)

def wordStatement : ℕ → String → Descent Stmt
  | 0, _ => unended
  | n + 1, word => do
    if word = "if" then
      advance
      branch n
    else if word = "for" then
      advance
      forLoop n
    else if word = "while" then
      advance
      whileLoop n
    else if word = "var" ∨ word = "let" ∨ word = "const" then
      ended items (← declaration items n)
    else if word = "break" then
      jump items word .leave
    else if word = "continue" then
      jump items word .resume
    else if word = "else" then
      fail items .elseWithoutIf
    else
      expressionStatement items n

def branch : ℕ → Descent Stmt
  | 0 => unended
  | n + 1 => do
    let test ← condition items n
    let yes ← statement n
    let no ← elseBranch n
    return .branch test yes no

def elseBranch : ℕ → Descent (Option Stmt)
  | 0 => unended
  | n + 1 => do
    if (← peek? items) == some (.ident "else") then
      advance
      return some (← statement n)
    else
      return none

def forLoop : ℕ → Descent Stmt
  | 0 => unended
  | n + 1 => do
    expect items .openParen
    let init ← initial items n
    expect items .semicolon
    let test ← clause items .semicolon n
    expect items .semicolon
    let update ← clause items .closeParen n
    expect items .closeParen
    return .forLoop init test update (← loopBody n)

def whileLoop : ℕ → Descent Stmt
  | 0 => unended
  | n + 1 => do
    let test ← condition items n
    return .whileLoop test (← loopBody n)

def loopBody : ℕ → Descent Stmt
  | 0 => unended
  | n + 1 => looped (statement n)

end

/-- Repeats up to the end of the items. -/
def statements : ℕ → Descent (List Stmt)
  | 0 => unended
  | n + 1 => do
    if ← atEnd items then
      return []
    else if ← peekIs items .closeBrace then
      fail items .unmatchedBrace
    else
      let s ← statement items n
      return s :: (← statements n)

end Descent

end Stencil.Script
