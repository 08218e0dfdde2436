import Stencil.Proofs.Script.Descent.Expressions

/-!
Descents into statements and programs.

A descent into a statement follows the reader for the levels that may still be opened, and counts
the loops that the reader is told of. From the start, a descent makes of the items what a run of the
reader makes of them.
-/

namespace Stencil.Script

open Reader

namespace Descent

variable {items : List Item} {d l n : ℕ} {inner : Level} {c : Cursor}

/-! ### Parts of statements -/

lemma condition_follows (h : Nests items d inner) :
    Follows items d l n (condition items) (Script.condition inner) :=
  (follows_expect .openParen).bind fun _ => (expression_follows h).bind fun test =>
    (follows_expect .closeParen).bind fun _ => follows_pure test

lemma bindingName_follows :
    Follows items d l n (fun _ => bindingName items) Script.bindingName := by
  intro c hc
  refine .peek? fun kind hkind => ?_
  split
  · exact .ite Iff.rfl (followsAt_failFound _) (.seen hc.succ hkind (follows_pure _))
  · simp only [*, followsAt_failFound]

lemma bindings_follows (h : Nests items d inner) (n : ℕ) :
    Follows items d l n (bindings items) (Script.bindings inner n) := by
  induction n with
  | zero => exact follows_zero
  | succ n ih =>
    have hnext (name : String) (init : Option Expr) : Follows items d l n
        (fun m => do
          if ← Descent.eat items .comma then
            return (name, init) :: (← bindings items m)
          else
            return [(name, init)])
        (do
          if ← Reader.eat .comma then
            return (name, init) :: (← Script.bindings inner n)
          else
            return [(name, init)]) :=
      (follows_eat .comma).bind fun _ => .ite Iff.rfl
        (ih.bind fun bs => follows_pure ((name, init) :: bs)) (follows_pure [(name, init)])
    refine .call (bindings.eq_2 items) ?_
    refine bindingName_follows.round bindingName_consumes fun name =>
      (follows_eat .assign).bind fun _ => .ite Iff.rfl ?_ (hnext name none)
    exact (h.assignment l n).map.bind (hnext name)

/-- A declaration is read after its keyword, which the descent takes too. -/
lemma declaration_follows (h : Nests items d inner) :
    Follows items d l n (declaration items)
      (Reader.advance >>= fun _ => Script.declaration inner) := by
  have hbindings (n : ℕ) : Follows items d l n
      (fun m => bindings items m >>= fun bs => pure (.declare bs)) (Script.declaration inner) :=
    .bind (.bounded (bindings_follows h)) fun bs => follows_pure _
  intro c hc
  by_cases hrest : c.rest items = []
  · -- no name comes after the end
    have hforward : c.forward.rest items = [] := by
      rw [Cursor.rest_forward, hrest]
      rfl
    have hfails : Script.declaration inner [] =
        .error ⟨.expectedVariable (describe []), none⟩ := rfl
    obtain ⟨result, c', ⟨k, hk⟩, hkeeps, hmatches⟩ := hbindings n c.forward
      ⟨hc.depth, hc.loops, by rw [hforward, ← hrest]; exact hc.length⟩
    have hends : EndsWith (declaration items) c result c' :=
      ⟨k, fun m hm => (bind_of_run rfl).trans (hk m hm)⟩
    refine ⟨result, c', hends, Cursor.keeps_forward.trans hkeeps, ?_⟩
    rw [hforward, hfails] at hmatches
    cases hmatches
    rw [hrest]
    exact .error _
  · exact .advance hc.succ hrest (hbindings n)

lemma clause_follows (h : Nests items d inner) (mark : Punct) :
    Follows items d l n (clause items mark) (Script.clause inner mark) :=
  (follows_peekIs mark).bind fun _ => .ite Iff.rfl (follows_pure none) <|
    (expression_follows h).bind fun e => follows_pure (some e)

lemma initial_follows (h : Nests items d inner) :
    Follows items d l n (initial items) (Script.initial inner) := by
  refine (follows_peekIs .semicolon).bind fun _ => .ite Iff.rfl (follows_pure none) ?_
  refine fun c hc => .peek? fun kind _ => .ite Iff.rfl ?_ ?_
  · have hstmt : Follows items d l n (fun m => declaration items m >>= fun s => pure (some s))
        ((Reader.advance >>= fun _ => Script.declaration inner) >>= fun s => pure (some s)) :=
      (declaration_follows h).bind fun s => follows_pure (some s)
    rw [bind_assoc] at hstmt
    exact hstmt c hc
  · exact (expression_follows h).bind (fun e => follows_pure (some (Stmt.expr e))) c hc

lemma ended_follows (s : Stmt) : Follows items d l n (fun _ => ended items s) (Script.ended s) :=
  (follows_eat .semicolon).map.bind fun _ => follows_pure s

lemma expressionStatement_follows (h : Nests items d inner) :
    Follows items d l n (expressionStatement items) (Script.expressionStatement inner) :=
  (expression_follows h).bind fun e => ended_follows (.expr e)

/-! ### Statements -/

/-- With so many levels open, the calls for a statement follow a reader of statements, which is told
whether a loop is open. -/
structure Contains (items : List Item) (d : ℕ) (stmt : StmtReader) : Prop where
  statement : ∀ l n, Follows items d l n (statement items) (stmt (decide (0 < l)))
  consumes : ∀ inLoop, (stmt inLoop).Consumes 1

variable {stmt : StmtReader}

lemma blockRest_follows (hs : Contains items d stmt) (n : ℕ) :
    Follows items d l n (blockRest items) (Script.blockRest (stmt (decide (0 < l))) n) := by
  induction n with
  | zero => exact follows_zero
  | succ n ih =>
    refine .call (blockRest.eq_2 items) ?_
    refine (follows_eat .closeBrace).bind fun _ => .ite Iff.rfl (follows_pure []) ?_
    refine .atEnd (follows_fail _) ?_
    exact (hs.statement l (n + 1)).round (hs.consumes _) fun s => ih.bind fun body =>
      follows_pure (s :: body)

lemma elseBranch_follows (hs : Contains items d stmt) :
    Follows items d l n (elseBranch items) (Script.elseBranch (stmt (decide (0 < l)))) := by
  refine .call (elseBranch.eq_2 items) fun c hc => .peek? fun kind hkind => ?_
  split_ifs with helse
  · exact .seen hc.succ (hkind.trans (beq_iff_eq.mp helse)) <| (hs.statement l n).bind fun s =>
      follows_pure (some s)
  · exact followsAt_pure none

lemma branch_follows (h : Nests items d inner) (hs : Contains items d stmt) :
    Follows items d l n (branch items) (Script.branchRest inner (stmt (decide (0 < l)))) := by
  refine .call (branch.eq_2 items) ?_
  exact (condition_follows h).bind fun test => (hs.statement l n).bind fun yes =>
    (elseBranch_follows hs).bind fun no => follows_pure (Stmt.branch test yes no)

/-- The body of a loop is read as one in a loop. -/
lemma loopBody_follows (hs : Contains items d stmt) :
    Follows items d l n (loopBody items) (stmt true) := by
  have hbody := hs.statement (l + 1) n
  rw [decide_eq_true (Nat.succ_pos l)] at hbody
  exact .call (loopBody.eq_2 items) hbody.looped

lemma forLoop_follows (h : Nests items d inner) (hs : Contains items d stmt) :
    Follows items d l n (forLoop items) (Script.forRest inner (stmt true)) := by
  refine .call (forLoop.eq_2 items) ?_
  exact (follows_expect .openParen).bind fun _ => (initial_follows h).bind fun init =>
    (follows_expect .semicolon).bind fun _ => (clause_follows h .semicolon).bind fun test =>
    (follows_expect .semicolon).bind fun _ => (clause_follows h .closeParen).bind fun update =>
    (follows_expect .closeParen).bind fun _ => (loopBody_follows hs).bind fun body =>
    follows_pure (Stmt.forLoop init test update body)

lemma whileLoop_follows (h : Nests items d inner) (hs : Contains items d stmt) :
    Follows items d l n (whileLoop items) (Script.whileRest inner (stmt true)) := by
  refine .call (whileLoop.eq_2 items) ?_
  exact (condition_follows h).bind fun test => (loopBody_follows hs).bind fun body =>
    follows_pure (Stmt.whileLoop test body)

lemma jump_followsAt {kind : TokenKind} (word : String) (s : Stmt) (hc : c.At items d l n)
    (hnext : next? (c.rest items) = some kind) :
    FollowsAt items (fun _ => jump items word s) (Script.jump word s (decide (0 < l))) c := by
  have hrun : jump items word s c = (if c.loops = 0 then fail items (.outsideLoop word) else do
      advance
      ended items s) c := bind_of_run rfl
  refine FollowsAt.congr ?_ (fun _ => hrun) rfl
  rw [hc.loops, Script.jump]
  split_ifs with hzero hpos hpos
  · exact absurd (of_decide_eq_true hpos) (by omega)
  · exact followsAt_fail _
  · exact .seen hc.succ hnext (ended_follows s)
  · exact absurd (decide_eq_true (by omega)) hpos

lemma wordStatement_followsAt (h : Nests items d inner) (hs : Contains items d stmt) {word : String}
    (hc : c.At items d l n) (hnext : next? (c.rest items) = some (.ident word)) :
    FollowsAt items (fun m => wordStatement items m word)
      (Script.wordStatement inner stmt (decide (0 < l)) word) c := by
  refine FollowsAt.call ?_ fun m => congrFun (wordStatement.eq_2 items word m) c
  unfold Script.wordStatement
  split_ifs
  · exact .seen hc.succ hnext (branch_follows h hs)
  · exact .seen hc.succ hnext (forLoop_follows h hs)
  · exact .seen hc.succ hnext (whileLoop_follows h hs)
  · have hstmt : Follows items d l n (fun m => declaration items m >>= fun s => ended items s)
        ((Reader.advance >>= fun _ => Script.declaration inner) >>= fun s => Script.ended s) :=
      (declaration_follows h).bind fun s => ended_follows s
    rw [bind_assoc] at hstmt
    exact hstmt c hc
  · exact jump_followsAt word .leave hc hnext
  · exact jump_followsAt word .resume hc hnext
  · exact followsAt_fail _
  · exact expressionStatement_follows h c hc

lemma statementBody_follows (h : Nests items d inner) (hs : Contains items d stmt) :
    Follows items d l n (statementBody items)
      (Script.statementBody inner stmt (decide (0 < l))) := by
  refine .call (statementBody.eq_2 items) fun c hc => ?_
  have hexpr : FollowsAt items (expressionStatement items) (Script.expressionStatement inner) c :=
    expressionStatement_follows h c hc
  refine .get fun is his => ?_
  have htaken {i : Item} {mid : List Item} (h : c.rest items = i :: mid) : c.rest items ≠ [] := by
    rw [h]
    exact List.cons_ne_nil i mid
  split
  · exact .advance hc.succ (htaken his) (follows_pure _)
  · exact .advance hc.succ (htaken his) (follows_pure _)
  · exact .advance hc.succ (htaken his) <| .bind (.bounded (blockRest_follows hs)) fun body =>
      follows_pure (Stmt.block body)
  · exact wordStatement_followsAt h hs hc (by rw [his]; rfl)
  · simp only [*]

/-- The calls for a statement follow the reader for the levels that may still be opened. -/
lemma contains (items : List Item) (d : ℕ) :
    Contains items d (Script.statement (maxNesting - d)) := by
  refine ⟨?_, statement_consumes _⟩
  induction hm : maxNesting - d generalizing d with
  | zero =>
    intro l n
    exact .call (statement.eq_2 items) (follows_nested_deep (Nat.sub_eq_zero_iff_le.mp hm))
  | succ m ih =>
    intro l n
    have hsucc : maxNesting - (d + 1) = m := by omega
    have hinner : Nests items (d + 1) (Level.ofDepth m) := hsucc ▸ nests items (d + 1)
    have hstmt : Contains items (d + 1) (Script.statement m) :=
      ⟨ih (d + 1) hsucc, statement_consumes m⟩
    exact .call (statement.eq_2 items)
      (.nested (Nat.lt_of_sub_eq_succ hm) (statementBody_follows hinner hstmt))

/-! ### Whole texts -/

lemma statements_follows (n : ℕ) :
    Follows items 0 0 n (statements items) (Script.statements n) := by
  induction n with
  | zero => exact follows_zero
  | succ n ih =>
    refine .call (statements.eq_2 items) ?_
    refine .atEnd (follows_pure []) ?_
    refine (follows_peekIs .closeBrace).bind fun _ => .ite Iff.rfl (follows_fail _) ?_
    exact ((contains items 0).statement 0 (n + 1)).round (statement_consumes _ _) fun s =>
      ih.bind fun body => follows_pure (s :: body)

lemma completeExpression_follows :
    Follows items 0 0 n (completeExpression items) Script.completeExpression :=
  (expression_follows (nests items 0)).bind fun e =>
    .atEnd (follows_pure e) (follows_failFound _)

/-- A descent from the start ends with what a run of the reader makes of all items. -/
lemma Follows.runOn {α : Type} {x : ℕ → Descent α} {r : Reader α}
    (h : ∀ n, Follows items 0 0 n x r) :
    ∃ c', EndsWith x .start (r.runOn items) c' ∧ Cursor.start.Keeps c' := by
  obtain ⟨result, c', hends, hkeeps, hmatches⟩ := h _ .start ⟨rfl, rfl, Nat.lt_succ_self _⟩
  have hstart : Cursor.start.rest items = items := rfl
  have hresult : result = r.runOn items := by
    rw [hstart] at hmatches
    rw [Reader.runOn]
    rcases hr : r items with f | ⟨a, rest⟩
    · rw [hr] at hmatches
      cases hmatches
      rfl
    · rw [hr] at hmatches
      cases hmatches
      rfl
  exact ⟨c', hresult ▸ hends, hkeeps⟩

end Descent

end Stencil.Script
