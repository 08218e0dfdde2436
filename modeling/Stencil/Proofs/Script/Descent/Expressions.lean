import Stencil.Proofs.Script.Descent.Climbing

/-!
Descents into expressions.

Each function of the descent follows its reader, if the calls into the next level do. So the calls
into a level are followed down to the last level, below which none can be opened.
-/

namespace Stencil.Script

open Reader

namespace Descent

variable {items : List Item} {d l n : ℕ} {inner : Level} {c : Cursor}

/-- With so many levels open, the calls into one more level follow the readers of a level. -/
structure Nests (items : List Item) (d : ℕ) (inner : Level) : Prop where
  assignment : ∀ l n, Follows items d l n (assignment items) inner.assignment
  operand : ∀ l n, Follows items d l n (operand items) inner.operand
  consumes : inner.Consumes

/-! ### Lists -/

lemma commas_follows (h : Nests items d inner) (n : ℕ) :
    Follows items d l n (commas items) (inner.commas n) := by
  induction n with
  | zero => exact follows_zero
  | succ n ih =>
    refine .call (commas.eq_2 items) ?_
    refine (follows_eat .comma).bind fun _ => .ite Iff.rfl ?_ (follows_pure [])
    exact (h.assignment l (n + 1)).round h.consumes.assignment fun e => ih.bind fun es =>
      follows_pure (e :: es)

lemma expression_follows (h : Nests items d inner) :
    Follows items d l n (expression items) inner.expression := by
  refine .call (expression.eq_2 items) ?_
  refine (h.assignment l n).bind fun first => .bind (.bounded (commas_follows h)) fun more => ?_
  cases more with
  | nil => exact follows_pure first
  | cons e es => exact follows_pure (Expr.sequence (first :: e :: es))

lemma elements_follows (h : Nests items d inner) (close : Punct) (n : ℕ) :
    Follows items d l n (fun m => elements items m close) (inner.elements close n) := by
  induction n with
  | zero => exact follows_zero
  | succ n ih =>
    refine .call (elements.eq_2 items close) ?_
    refine (follows_eat close).bind fun _ => .ite Iff.rfl (follows_pure []) ?_
    refine (h.assignment l (n + 1)).round h.consumes.assignment fun e =>
      (follows_eat .comma).bind fun _ => .ite Iff.rfl ?_ ?_
    · exact ih.bind fun es => follows_pure (e :: es)
    · exact (follows_expect close).bind fun _ => follows_pure [e]

lemma entryName_follows : Follows items d l n (fun _ => entryName items) Level.entryName := by
  intro c hc
  refine .peek? fun kind hkind => ?_
  split
  · exact .seen hc.succ hkind (follows_pure _)
  · exact .seen hc.succ hkind (follows_pure _)
  · exact .seen hc.succ hkind (follows_pure _)
  · simp only [*, followsAt_failFound]

lemma entries_follows (h : Nests items d inner) (n : ℕ) :
    Follows items d l n (entries items) (inner.entries n) := by
  induction n with
  | zero => exact follows_zero
  | succ n ih =>
    refine .call (entries.eq_2 items) ?_
    refine (follows_eat .closeBrace).bind fun _ => .ite Iff.rfl (follows_pure []) ?_
    refine entryName_follows.round Level.entryName_consumes fun name =>
      (follows_expect .colon).bind fun _ => (h.assignment l n).bind fun e =>
      (follows_eat .comma).bind fun _ => .ite Iff.rfl ?_ ?_
    · exact ih.bind fun es => follows_pure ((name, e) :: es)
    · exact (follows_expect .closeBrace).bind fun _ => follows_pure [(name, e)]

/-! ### Operands -/

lemma word_followsAt {name : String} (hc : c.At items d l n)
    (hnext : next? (c.rest items) = some (.ident name)) :
    FollowsAt items (fun _ => word items name) (Level.word name) c := by
  unfold word Level.word
  split_ifs
  · exact .seen hc.succ hnext (follows_pure _)
  · exact .seen hc.succ hnext (follows_pure _)
  · exact .seen hc.succ hnext (follows_pure _)
  · exact followsAt_fail _
  · exact .seen hc.succ hnext (follows_pure _)

lemma primary_follows (h : Nests items d inner) :
    Follows items d l n (primary items) inner.primary := by
  refine .call (primary.eq_2 items) fun c hc => .peek? fun kind hkind => ?_
  split
  · exact .seen hc.succ hkind (follows_pure _)
  · exact .seen hc.succ hkind (follows_pure _)
  · exact word_followsAt hc hkind
  · -- an expression in parentheses
    exact .seen hc.succ hkind <| (expression_follows h).bind fun e =>
      (follows_expect .closeParen).bind fun _ => follows_pure e
  · exact .seen hc.succ hkind <| .bind (.bounded (elements_follows h .closeBracket)) fun es =>
      follows_pure (Expr.array es)
  · exact .seen hc.succ hkind <| .bind (.bounded (entries_follows h)) fun es =>
      follows_pure (Expr.object es)
  · simp only [*, followsAt_failFound]

lemma steps_follows (h : Nests items d inner) (n : ℕ) (e : Expr) :
    Follows items d l n (fun m => steps items m e) (inner.steps n e) := by
  induction n generalizing e with
  | zero => exact follows_zero
  | succ n ih =>
    refine .call (steps.eq_2 items e) fun c hc => .peek? fun kind hkind => ?_
    split
    · -- a member
      refine .seen hc hkind fun c hc => .peek? fun kind hkind => ?_
      split
      · exact .seen hc.succ hkind (ih _)
      · simp only [*, followsAt_failFound]
    · exact .seen hc hkind <| (expression_follows h).bind fun key =>
        (follows_expect .closeBracket).bind fun _ => ih (.index e key)
    · -- a call
      cases e with
      | ident name =>
        refine FollowsAt.call ?_ fun m => congrFun (called.eq_2 items m name) c
        exact .seen hc hkind <| .bind (.bounded (elements_follows h .closeParen)) fun args =>
          ih (.call name args)
      | _ => exact (followsAt_fail _).call fun m => rfl
    · simp only [*, followsAt_pure]

lemma stepped_follows (h : Nests items d inner) :
    Follows items d l n (stepped items) inner.stepped := by
  refine .call (stepped.eq_2 items) ?_
  exact (primary_follows h).bind fun e => .bounded fun n => steps_follows h n e

lemma update_follows (op : UpdateOp) (before : Bool) (target : Expr) :
    Follows items d l n (fun _ => update items op before target) (Level.update op before target) :=
  .ite Iff.rfl (follows_pure _) (follows_fail _)

lemma unary_follows (h : Nests items d inner) :
    Follows items d l n (unary items) inner.unary := by
  refine .call (unary.eq_2 items) fun c hc => .peek? fun kind hkind => ?_
  rcases hop : kind.bind Level.unaryOp? with _ | op
  · rcases hup : kind.bind Level.updateOp? with _ | op
    · refine (stepped_follows h).bind (fun e c hc => .peek? fun kind hkind => ?_) c hc
      rcases hup : kind.bind Level.updateOp? with _ | op
      · exact followsAt_pure e
      · exact .chosen hc.succ (hkind ▸ hup) (update_follows op false e)
    · exact .chosen hc.succ (hkind ▸ hup) <| (h.operand l n).bind fun e => update_follows op true e
  · exact .chosen hc.succ (hkind ▸ hop) <| (h.operand l n).bind fun e =>
      follows_pure (Expr.unary op e)

/-! ### Operators between operands -/

lemma binary_follows (h : Nests items d inner) (least : ℕ) :
    Follows items d l n (fun m => binary items m least)
      ((Level.tiers.drop (least - 1)).foldr Level.chain inner.unary) := by
  rw [Level.foldr_chain]
  refine .call (binary.eq_2 items least) ?_
  exact (unary_follows h).bind fun left =>
    climb_follows h.consumes (fun _ => unary_follows h) n least left

lemma conditional_follows (h : Nests items d inner) :
    Follows items d l n (conditional items) inner.conditional := by
  refine .call (conditional.eq_2 items) ?_
  refine (binary_follows h 1).bind fun test => (follows_eat .question).bind fun _ =>
    .ite Iff.rfl ?_ (follows_pure test)
  exact (h.assignment l n).bind fun yes => (follows_expect .colon).bind fun _ =>
    (h.assignment l n).bind fun no => follows_pure (Expr.conditional test yes no)

lemma assigned_follows (h : Nests items d inner) :
    Follows items d l n (assigned items) inner.assigned := by
  refine .call (assigned.eq_2 items) ?_
  refine (conditional_follows h).bind fun target c hc => .peek? fun kind hkind => ?_
  rcases hop : kind.bind Level.assignOp? with _ | op
  · exact followsAt_pure target
  · split_ifs
    · exact .chosen hc.succ (hkind ▸ hop) <| (h.assignment l n).bind fun e =>
        follows_pure (Expr.assign op target e)
    · exact followsAt_fail _

/-! ### Levels -/

/-- The calls into the next level follow the readers for the levels that may still be opened. -/
lemma nests (items : List Item) (d : ℕ) : Nests items d (Level.ofDepth (maxNesting - d)) := by
  induction hm : maxNesting - d generalizing d with
  | zero =>
    have hd : maxNesting ≤ d := Nat.sub_eq_zero_iff_le.mp hm
    exact
      { assignment := fun l n => .call (assignment.eq_2 items) (follows_nested_deep hd)
        operand := fun l n => .call (operand.eq_2 items) (follows_nested_deep hd)
        consumes := Level.ofDepth_consumes 0 }
  | succ m ih =>
    have hd : d < maxNesting := Nat.lt_of_sub_eq_succ hm
    have hinner : Nests items (d + 1) (Level.ofDepth m) := ih (d + 1) (by omega)
    exact
      { assignment := fun l n =>
          .call (assignment.eq_2 items) (.nested hd (assigned_follows hinner))
        operand := fun l n => .call (operand.eq_2 items) (.nested hd (unary_follows hinner))
        consumes := Level.ofDepth_consumes (m + 1) }

end Descent

end Stencil.Script
