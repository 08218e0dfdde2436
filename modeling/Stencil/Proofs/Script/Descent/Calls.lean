import Stencil.Proofs.Script.Descent.Statements

/-!
Calls of a descent.

Every call comes to an end from every cursor, with the outcome of its reader. By then it has closed
what it opened, and if it succeeded it has taken an item at least. So no loop of a descent goes on
for ever, whether or not the items make up a program.
-/

namespace Stencil.Script.Descent

open Reader

/-- The functions of a descent, and then the loops that they repeat. -/
inductive Call : Type → Type
  | statement : Call Stmt
  | declaration : Call Stmt
  | branch : Call Stmt
  | forLoop : Call Stmt
  | whileLoop : Call Stmt
  | loopBody : Call Stmt
  | expression : Call Expr
  | assignment : Call Expr
  | conditional : Call Expr
  | binary (least : ℕ) : Call Expr
  | unary : Call Expr
  | operand : Call Expr
  | stepped : Call Expr
  | primary : Call Expr
  | blockRest : Call (List Stmt)
  | bindings : Call (List (String × Option Expr))
  | commas : Call (List Expr)
  | elements (close : Punct) : Call (List Expr)
  | entries : Call (List (String × Expr))
  | climb (least : ℕ) (left : Expr) : Call Expr
  | steps (e : Expr) : Call Expr

namespace Call

variable {α : Type}

def descent (items : List Item) : Call α → ℕ → Descent α
  | statement => Descent.statement items
  | declaration => Descent.declaration items
  | branch => Descent.branch items
  | forLoop => Descent.forLoop items
  | whileLoop => Descent.whileLoop items
  | loopBody => Descent.loopBody items
  | expression => Descent.expression items
  | assignment => Descent.assignment items
  | conditional => Descent.conditional items
  | binary least => fun m => Descent.binary items m least
  | unary => Descent.unary items
  | operand => Descent.operand items
  | stepped => Descent.stepped items
  | primary => Descent.primary items
  | blockRest => Descent.blockRest items
  | bindings => Descent.bindings items
  | commas => Descent.commas items
  | elements close => fun m => Descent.elements items m close
  | entries => Descent.entries items
  | climb least left => fun m => Descent.climb items m least left
  | steps e => fun m => Descent.steps items m e

/-- The reader for a call, from those of the next level and of the statements in it. -/
def readerOf (inner : Level) (stmt : StmtReader) (inLoop : Bool) : Call α → Reader α
  | statement => stmt inLoop
  | declaration => do
    Reader.advance
    Script.declaration inner
  | branch => Script.branchRest inner (stmt inLoop)
  | forLoop => Script.forRest inner (stmt true)
  | whileLoop => Script.whileRest inner (stmt true)
  | loopBody => stmt true
  | expression => inner.expression
  | assignment => inner.assignment
  | conditional => inner.conditional
  | binary least => (Level.tiers.drop (least - 1)).foldr Level.chain inner.unary
  | unary => inner.unary
  | operand => inner.operand
  | stepped => inner.stepped
  | primary => inner.primary
  | blockRest => bounded (Script.blockRest (stmt inLoop))
  | bindings => bounded (Script.bindings inner)
  | commas => bounded inner.commas
  | elements close => bounded (inner.elements close)
  | entries => bounded inner.entries
  | climb least left => inner.joinedBy (Level.tiers.drop (least - 1)) left
  | steps e => bounded fun n => inner.steps n e

/-- The reader for a call with so many levels and loops open. -/
def reader (d l : ℕ) (call : Call α) : Reader α :=
  call.readerOf (Level.ofDepth (maxNesting - d)) (Script.statement (maxNesting - d))
    (decide (0 < l))

/-- How many items a call takes at least. -/
def least : Call α → ℕ
  | blockRest | commas | elements _ | entries | climb _ _ | steps _ => 0
  | _ => 1

lemma follows (items : List Item) (call : Call α) (d l n : ℕ) :
    Follows items d l n (call.descent items) (call.reader d l) := by
  have h := nests items d
  have hs := contains items d
  cases call with
  | statement => exact hs.statement l n
  | declaration => exact declaration_follows h
  | branch => exact branch_follows h hs
  | forLoop => exact forLoop_follows h hs
  | whileLoop => exact whileLoop_follows h hs
  | loopBody => exact loopBody_follows hs
  | expression => exact expression_follows h
  | assignment => exact h.assignment l n
  | conditional => exact conditional_follows h
  | binary least => exact binary_follows h least
  | unary => exact unary_follows h
  | operand => exact h.operand l n
  | stepped => exact stepped_follows h
  | primary => exact primary_follows h
  | blockRest => exact .bounded (blockRest_follows hs)
  | bindings => exact .bounded (bindings_follows h)
  | commas => exact .bounded (commas_follows h)
  | elements close => exact .bounded (elements_follows h close)
  | entries => exact .bounded (entries_follows h)
  | climb least left => exact climb_follows h.consumes (fun _ => unary_follows h) n least left
  | steps e => exact .bounded fun n => steps_follows h n e

lemma readerOf_consumes {inner : Level} {stmt : StmtReader} (hi : inner.Consumes)
    (hs : ∀ inLoop, (stmt inLoop).Consumes 1) (inLoop : Bool) (call : Call α) :
    (call.readerOf inner stmt inLoop).Consumes call.least := by
  cases call with
  | statement => exact hs inLoop
  | declaration =>
    -- one item for the keyword, if there is one, and the rest for the bindings
    intro items
    cases items with
    | nil => exact (declaration_consumes hi []).congr rfl
    | cons i items => exact .advance (declaration_consumes hi).loose
  | branch => exact branchRest_consumes hi (hs inLoop)
  | forLoop => exact forRest_consumes hi (hs true)
  | whileLoop => exact whileRest_consumes hi (hs true)
  | loopBody => exact hs true
  | expression => exact Level.expression_consumes hi
  | assignment => exact hi.assignment
  | conditional => exact Level.conditional_consumes hi
  | binary least => exact Level.foldr_chain_consumes hi _
  | unary => exact Level.unary_consumes hi
  | operand => exact hi.operand
  | stepped => exact Level.stepped_consumes hi
  | primary => exact Level.primary_consumes hi
  | blockRest => exact .bounded fun n => blockRest_consumes (hs inLoop) (n + 1)
  | bindings => exact .bounded (bindings_consumes hi)
  | commas => exact .bounded fun n => Level.commas_consumes hi (n + 1)
  | elements close => exact .bounded fun n => Level.elements_consumes hi close (n + 1)
  | entries => exact .bounded fun n => Level.entries_consumes hi (n + 1)
  | climb least left => exact Level.joinedBy_consumes hi _ left
  | steps e =>
    change (bounded fun n => inner.steps n e).Consumes 0
    exact .bounded fun n => Level.steps_consumes hi (n + 1) e

lemma reader_consumes (call : Call α) (d l : ℕ) : (call.reader d l).Consumes call.least :=
  call.readerOf_consumes (Level.ofDepth_consumes _) (statement_consumes _) _

end Call

/-- What a call of a reader has taken, a descent that follows it has passed. -/
lemma Matches.passes {α : Type} {items : List Item} {c c' : Cursor} {r : Reader α} {k : ℕ} {a : α}
    (h : Matches items c c' (.ok a) (r (c.rest items))) (hr : r.Consumes k) :
    c.position + k ≤ c'.position ∧ c'.position ≤ max c.position items.length := by
  rcases hrun : r (c.rest items) with f | ⟨b, rest⟩
  · rw [hrun] at h
    cases h
  · rw [hrun] at h
    cases h with
    | ok a hle hmax =>
      have hlen := ((hr _).leaves hrun).2
      rw [Cursor.length_rest, Cursor.length_rest] at hlen
      exact ⟨by omega, hmax⟩

/-- **Every call comes to an end.** From any cursor, and whatever the items are, a call ends with
the outcome of its reader. Then as many levels and loops are open as before, and never more levels
were open than there may be. A function that succeeds has taken an item at least, and neither it nor
a loop has gone beyond the last one. So the descents into a program and into an expression end, too,
with what the runs of their readers make of all items. -/
theorem calls_end (items : List Item) :
    (∀ (α : Type) (call : Call α) (c : Cursor), ∃ result c',
      EndsWith (call.descent items) c result c' ∧ c.Keeps c' ∧
      (∀ a, result = .ok a →
        c.position + call.least ≤ c'.position ∧ c'.position ≤ max c.position items.length) ∧
      Matches items c c' result (call.reader c.depth c.loops (c.rest items))) ∧
    (∃ c', EndsWith (statements items) .start ((bounded Script.statements).runOn items) c' ∧
      Cursor.start.Keeps c') ∧
    ∃ c', EndsWith (completeExpression items) .start (Script.completeExpression.runOn items) c' ∧
      Cursor.start.Keeps c' := by
  refine ⟨fun α call c => ?_, Follows.runOn fun n => .bounded statements_follows,
    Follows.runOn fun n => completeExpression_follows⟩
  obtain ⟨result, c', hends, hkeeps, hmatches⟩ :=
    call.follows items c.depth c.loops _ c ⟨rfl, rfl, Nat.lt_succ_self _⟩
  refine ⟨result, c', hends, hkeeps, ?_, hmatches⟩
  rintro a rfl
  exact hmatches.passes (call.reader_consumes c.depth c.loops)

/-- The fault of a header that is left open is found two levels deep, and both are closed. -/
example : statements [.token ⟨.ident "while", 1⟩, .token ⟨.punct .openParen, 1⟩,
    .token ⟨.ident "a", 2⟩] 20 .start =
      some (.error ⟨.expectedPunct .closeParen "end of template", 2⟩, ⟨3, 0, 0, 2⟩) := rfl

end Stencil.Script.Descent
