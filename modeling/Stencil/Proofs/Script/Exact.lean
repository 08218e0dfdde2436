import Stencil.Proofs.Script.Complete

/-!
What is read as a whole expression is what the grammar makes one, and it is read as the one thing
it stands for.
-/

namespace Stencil.Script

open Reader Grammar Level

variable {m n : ℕ} {e : Expr} {tokens : List Token}

lemma derives_of_completeExpression (h : completeExpression.runOn (tokens.map .token) = .ok e) :
    Derives maxNesting .expression (tokens.map Token.kind) e := by
  obtain ⟨rest, h⟩ := runOn_ok.mp h
  simp only [completeExpression, bind_ok, get_ok] at h
  obtain ⟨e', mid, he, is, _, ⟨rfl, rfl⟩, h⟩ := h
  split_ifs at h with hempty
  · obtain ⟨rfl, rfl⟩ := pure_ok.mp h
    obtain rfl := List.isEmpty_iff.mp hempty
    obtain ⟨ts, hspan, hd⟩ := expression_sound (ofDepth_sound maxNesting) he
    rwa [spans_tokens.mp hspan] at hd
  · exact (failFound_ok h).elim

lemma expression_of_derives (h : Derives n .expression (tokens.map Token.kind) e) :
    (ofDepth n).expression (tokens.map .token) = .ok (e, []) :=
  accepts_of_derives h (spans_tokens.mpr rfl) stops_nil

lemma completeExpression_of_derives
    (h : Derives maxNesting .expression (tokens.map Token.kind) e) :
    completeExpression.runOn (tokens.map .token) = .ok e := by
  refine runOn_ok.mpr ⟨[], ?_⟩
  rw [completeExpression, bind_of_ok (expression_of_derives h)]
  rfl

lemma parseExpression_of_derives {source : String} {line : ℕ} {tokens : List Token} {e : Expr}
    (ht : tokenize source line = .ok tokens) (hne : tokens ≠ [])
    (h : Derives maxNesting .expression (tokens.map Token.kind) e) :
    parseExpression source line = .ok e := by
  refine except_bind_ok.mpr ⟨tokens, ht, ?_⟩
  rw [if_neg (by simpa using hne)]
  exact completeExpression_of_derives h

/-- Tokens have one reading, whatever the nesting. -/
lemma Grammar.Derives.unique {e' : Expr} (h : Derives n .expression (tokens.map Token.kind) e)
    (h' : Derives m .expression (tokens.map Token.kind) e') : e = e' := by
  have hn := expression_of_derives (h.mono (Nat.le_max_left n m))
  have hm := expression_of_derives (h'.mono (Nat.le_max_right n m))
  rw [hn] at hm
  cases hm
  rfl

/-- **Expressions are read as the grammar has them**: a list of tokens is read as `e` if and only
if it is an expression that stands for `e` and does not nest too deep, and no list of tokens
stands for two expressions. -/
theorem completeExpression_grammar (tokens : List Token) (e : Expr) :
    (completeExpression.runOn (tokens.map .token) = .ok e ↔
      ∃ n ≤ maxNesting, Derives n .expression (tokens.map Token.kind) e) ∧
    ∀ n m e', Derives n .expression (tokens.map Token.kind) e →
      Derives m .expression (tokens.map Token.kind) e' → e = e' := by
  refine ⟨⟨fun h => ?_, ?_⟩, fun n m e' h h' => h.unique h'⟩
  · exact ⟨maxNesting, Nat.le_refl _, derives_of_completeExpression h⟩
  · rintro ⟨n, hn, h⟩
    exact completeExpression_of_derives (h.mono hn)

/-- The tokens of `a - b - c`. -/
def differences : List Token :=
  [⟨.ident "a", 1⟩, ⟨.punct .minus, 1⟩, ⟨.ident "b", 1⟩, ⟨.punct .minus, 1⟩, ⟨.ident "c", 1⟩]

lemma derives_differences :
    Derives 1 .expression (differences.map Token.kind)
      (.binary .sub (.binary .sub (.ident "a") (.ident "b")) (.ident "c")) := by
  have ha : Derives 0 .primary [.ident "a"] (.ident "a") :=
    .ident (by decide) fun _ h => by simpa using h.mem
  have hb : Derives 0 .primary [.ident "b"] (.ident "b") :=
    .ident (by decide) fun _ h => by simpa using h.mem
  have hc : Derives 0 .primary [.ident "c"] (.ident "c") :=
    .ident (by decide) fun _ h => by simpa using h.mem
  have hab : Derives 0 (.operators 4) _ _ :=
    .joined .sub (ha.operators (by omega)) (hb.operators (by omega))
  have habc : Derives 0 (.operators 4) _ _ := .joined .sub hab (hc.operators (by omega))
  exact .single (.unassigned (.unconditional (habc.looser (by omega) (by omega))))

/-- Differences are read from the left, and in no other way. -/
theorem completeExpression_differences :
    completeExpression.runOn (differences.map .token) =
        .ok (.binary .sub (.binary .sub (.ident "a") (.ident "b")) (.ident "c")) ∧
      ¬ Derives 1 .expression (differences.map Token.kind)
        (.binary .sub (.ident "a") (.binary .sub (.ident "b") (.ident "c"))) := by
  refine ⟨(completeExpression_grammar _ _).1.mpr ⟨1, by decide, derives_differences⟩, fun h => ?_⟩
  cases (completeExpression_grammar _ _).2 1 1 _ derives_differences h

end Stencil.Script
