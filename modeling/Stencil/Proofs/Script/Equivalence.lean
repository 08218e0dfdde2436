import Stencil.Proofs.Outcome
import Stencil.Script.Exec

/-!
Statements that run alike.

Whatever is known of what they are made of carries over to compound statements. The one change that
concerns the text itself is that a literal output may be written in two parts.
-/

namespace Stencil.Script

open Exec

namespace Stmt

/-- The statements make the same runs. -/
def Equivalent (s s' : Stmt) : Prop := ∀ tiers bound, exec tiers bound s = exec tiers bound s'

def EquivalentOption (s s' : Option Stmt) : Prop :=
  ∀ tiers bound, execOption tiers bound s = execOption tiers bound s'

/-- The statements make the same runs one after the other, in a block and in a program. -/
def EquivalentAll (ss ss' : List Stmt) : Prop :=
  ∀ tiers bound, execAll tiers bound ss = execAll tiers bound ss' ∧
    execTop tiers bound ss = execTop tiers bound ss'

variable {s s' : Stmt} {ss ss' : List Stmt}

lemma Equivalent.refl (s : Stmt) : Equivalent s s := fun _ _ => rfl

lemma EquivalentOption.none : EquivalentOption none none := fun _ _ => rfl

lemma Equivalent.some (h : Equivalent s s') : EquivalentOption (some s) (some s') := by
  intro tiers bound
  rw [execOption, execOption, h]

lemma EquivalentAll.refl (ss : List Stmt) : EquivalentAll ss ss := fun _ _ => ⟨rfl, rfl⟩

lemma EquivalentAll.cons (h : Equivalent s s') (hrest : EquivalentAll ss ss') :
    EquivalentAll (s :: ss) (s' :: ss') := by
  intro tiers bound
  obtain ⟨hall, htop⟩ := hrest tiers bound
  rw [execAll, execAll, execTop, execTop, h, hall, htop]
  exact ⟨rfl, rfl⟩

lemma EquivalentAll.block (h : EquivalentAll ss ss') : Equivalent (.block ss) (.block ss') := by
  intro tiers bound
  rw [exec, exec, (h tiers bound).1]

lemma Equivalent.branch {no no' : Option Stmt} (test : Expr) (hyes : Equivalent s s')
    (hno : EquivalentOption no no') : Equivalent (.branch test s no) (.branch test s' no') := by
  intro tiers bound
  rw [exec, exec, hyes, hno]

lemma Equivalent.forLoop (init : Option Stmt) (test update : Option Expr) (h : Equivalent s s') :
    Equivalent (.forLoop init test update s) (.forLoop init test update s') := by
  intro tiers bound
  rw [exec, exec, h]

lemma Equivalent.whileLoop (test : Expr) (h : Equivalent s s') :
    Equivalent (.whileLoop test s) (.whileLoop test s') := by
  intro tiers bound
  rw [exec, exec, h]

/-- Two texts are written as one. -/
lemma exec_append (l r : String) (tiers : Tiers) (bound : ℕ) :
    exec tiers bound (.output (.literal (l ++ r))) = (do
      discard <| exec tiers bound (.output (.literal l))
      exec tiers bound (.output (.literal r))) := by
  rw [exec, exec, exec]
  funext frame
  change some (Except.ok (Flow.normal, (⟨frame.locals, frame.out ++ (l ++ r)⟩ : Frame))) =
    some (Except.ok (Flow.normal, (⟨frame.locals, frame.out ++ l ++ r⟩ : Frame)))
  rw [String.append_assoc]

/-- **A text in two parts**: in a list of statements, a literal output may be cut anywhere. -/
theorem EquivalentAll.cut (l r : String) (h : EquivalentAll ss ss') :
    EquivalentAll (.output (.literal (l ++ r)) :: ss)
      (.output (.literal l) :: .output (.literal r) :: ss') := by
  intro tiers bound
  obtain ⟨hall, htop⟩ := h tiers bound
  constructor
  · rw [execAll, execAll, execAll, exec_append, hall]
    rfl
  · rw [execTop, execTop, execTop, exec_append, htop]
    rfl

end Stmt

end Stencil.Script
