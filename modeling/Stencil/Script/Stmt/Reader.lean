import Stencil.Instruction
import Stencil.Script.Expr.Reader
import Stencil.Script.Stmt

/-!
Reading programs.

A statement may begin in one tag and end in another, with outputs in between. So the tokens of
all statement tags are read as one list, in which every output is an item of its own.
-/

namespace Stencil.Script

open Reader

/-! ### Parts of statements -/

def condition (inner : Level) : Reader Expr := do
  expect .openParen
  let test ← inner.expression
  expect .closeParen
  return test

def bindingName : Reader String := do
  match ← peek? with
  | some (.ident name) =>
    if name ∈ reserved then failFound .expectedVariable
    else
      advance
      return name
  | _ => failFound .expectedVariable

/-- Bindings with a comma between them. -/
def bindings (inner : Level) : Nat → Reader (List (String × Option Expr))
  | 0 => pure []
  | n + 1 => do
    let name ← bindingName
    let init ← if ← eat .assign then some <$> inner.assignment else pure none
    if ← eat .comma then
      return (name, init) :: (← bindings inner n)
    else
      return [(name, init)]

/-- A declaration after its keyword. -/
def declaration (inner : Level) : Reader Stmt := do
  return .declare (← bounded (bindings inner))

/-- An expression, absent where a mark comes instead. -/
def clause (inner : Level) (mark : Punct) : Reader (Option Expr) := do
  if ← peekIs mark then return none else return some (← inner.expression)

def declares (kind : Option TokenKind) : Bool :=
  match kind with
  | some (.ident name) => name = "var" ∨ name = "let" ∨ name = "const"
  | _ => false

/-- The first clause of a loop header. -/
def initial (inner : Level) : Reader (Option Stmt) := do
  if ← peekIs .semicolon then
    return none
  else if declares (← peek?) then
    advance
    return some (← declaration inner)
  else
    return some (.expr (← inner.expression))

/-! ### Statements -/

/-- A reader of statements one level deeper. It is told whether a loop surrounds it. -/
abbrev StmtReader := Bool → Reader Stmt

/-- The statements of a block after its opening brace. -/
def blockRest (stmt : Reader Stmt) : Nat → Reader (List Stmt)
  | 0 => pure []
  | n + 1 => do
    if ← eat .closeBrace then
      return []
    else if (← get).isEmpty then
      fail .unclosedBlock
    else
      let s ← stmt
      return s :: (← blockRest stmt n)

def elseBranch (stmt : Reader Stmt) : Reader (Option Stmt) := do
  if (← peek?) == some (.ident "else") then
    advance
    return some (← stmt)
  else
    return none

def branchRest (inner : Level) (stmt : Reader Stmt) : Reader Stmt := do
  let test ← condition inner
  let yes ← stmt
  let no ← elseBranch stmt
  return .branch test yes no

def forRest (inner : Level) (body : Reader Stmt) : Reader Stmt := do
  expect .openParen
  let init ← initial inner
  expect .semicolon
  let test ← clause inner .semicolon
  expect .semicolon
  let update ← clause inner .closeParen
  expect .closeParen
  return .forLoop init test update (← body)

def whileRest (inner : Level) (body : Reader Stmt) : Reader Stmt := do
  let test ← condition inner
  return .whileLoop test (← body)

/-- Ends a statement, with a semicolon if there is one. -/
def ended (s : Stmt) : Reader Stmt := do
  discard <| eat .semicolon
  return s

def jump (word : String) (s : Stmt) (inLoop : Bool) : Reader Stmt := do
  if inLoop then
    advance
    ended s
  else
    fail (.outsideLoop word)

def expressionStatement (inner : Level) : Reader Stmt := do
  ended (.expr (← inner.expression))

/-- A statement that begins with a word. -/
def wordStatement (inner : Level) (stmt : StmtReader) (inLoop : Bool) (word : String) :
    Reader Stmt := do
  if word = "if" then
    advance
    branchRest inner (stmt inLoop)
  else if word = "for" then
    advance
    forRest inner (stmt true)
  else if word = "while" then
    advance
    whileRest inner (stmt true)
  else if word = "var" ∨ word = "let" ∨ word = "const" then
    advance
    ended (← declaration inner)
  else if word = "break" then
    jump word .leave inLoop
  else if word = "continue" then
    jump word .resume inLoop
  else if word = "else" then
    fail .elseWithoutIf
  else
    expressionStatement inner

def statementBody (inner : Level) (stmt : StmtReader) (inLoop : Bool) : Reader Stmt := do
  match ← get with
  | .emit o _ :: _ =>
    advance
    return .output o
  | .token ⟨.punct .semicolon, _⟩ :: _ =>
    advance
    return .empty
  | .token ⟨.punct .openBrace, _⟩ :: _ =>
    advance
    return .block (← bounded (blockRest (stmt inLoop)))
  | .token ⟨.ident word, _⟩ :: _ => wordStatement inner stmt inLoop word
  | _ => expressionStatement inner

/-- A statement when the given number of levels may still be nested. -/
def statement : Nat → StmtReader
  | 0, _ => fail .tooDeep
  | n + 1, inLoop => statementBody (Level.ofDepth n) (statement n) inLoop

/-! ### Programs -/

/-- Statements up to the end of the items. -/
def statements : Nat → Reader (List Stmt)
  | 0 => pure []
  | n + 1 => do
    if (← get).isEmpty then
      return []
    else if ← peekIs .closeBrace then
      fail .unmatchedBrace
    else
      let s ← statement maxNesting false
      return s :: (← statements n)

/-- The items of a program. Text is on the line that the last tag and the line breaks in the
text since then lead to. -/
def itemsFrom (line : Nat) : List Instruction → Except Fault (List Item)
  | [] => .ok []
  | .appendLiteral text :: rest => do
    return .emit (.literal text) line :: (← itemsFrom (line + Text.breaks text.toList) rest)
  | .execute code :: rest => do
    let tokens ← tokenize code.source code.line
    return tokens.map .token ++ (← itemsFrom code.line rest)
  | .appendEscaped code :: rest => do
    let e ← parseExpression code.source code.line
    return .emit (.escaped e) code.line :: (← itemsFrom code.line rest)
  | .appendRaw code :: rest => do
    let e ← parseExpression code.source code.line
    return .emit (.raw e) code.line :: (← itemsFrom code.line rest)
  | .noop :: rest => itemsFrom line rest

/-- The program that a list of instructions makes up. -/
def parseProgram (instructions : List Instruction) : Except Fault Program := do
  let items ← itemsFrom 1 instructions
  return ⟨← (bounded statements).runOn items⟩

end Stencil.Script
