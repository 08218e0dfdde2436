import Stencil.Proofs.Script.Resolution
import Stencil.Proofs.Script.Writing

/-!
Names that an expression does not mention.

An evaluation that ends well has the same result whatever such a name is bound to, and leaves the
name as it is.
-/

namespace Stencil.Script

open Eval

variable {α β : Type} {name : String} {locals locals' : Locals}

/-- The locals have the same at all names but one. -/
def AgreeOff (name : String) (locals locals' : Locals) : Prop :=
  ∀ m, m ≠ name → Entries.find? locals' m = Entries.find? locals m

lemma AgreeOff.put (h : AgreeOff name locals locals') (root : String) (v : Value) :
    AgreeOff name (Entries.put locals root v) (Entries.put locals' root v) := by
  intro m hm
  by_cases hroot : m = root
  · subst hroot
    rw [Entries.find?_put_self, Entries.find?_put_self]
  · rw [Entries.find?_put_of_ne hroot, Entries.find?_put_of_ne hroot, h m hm]

namespace Eval

/-- From locals that differ at the name only, the evaluation has the same results, and it leaves
the name as it is. -/
def Ignores (x : Eval α) (name : String) : Prop :=
  ∀ ⦃locals locals' : Locals⦄, AgreeOff name locals locals' →
    ∀ ⦃a mid⦄, x locals = .ok (a, mid) →
      Entries.find? mid name = Entries.find? locals name ∧
        ∃ mid', x locals' = .ok (a, mid') ∧ AgreeOff name mid mid'

lemma ignores_pure {a : α} : (pure a : Eval α).Ignores name := by
  intro locals locals' hagree a' mid h
  cases h
  exact ⟨rfl, locals', rfl, hagree⟩

lemma Ignores.bind_ok {x : Eval α} {f : α → Eval β} (hx : x.Ignores name)
    (hf : ∀ locals a mid, x locals = .ok (a, mid) → (f a).Ignores name) :
    (x >>= f).Ignores name := by
  intro locals locals' hagree b last h
  obtain ⟨a, mid, ha, hb⟩ := state_bind_ok.mp h
  obtain ⟨hkept, mid', ha', hmid⟩ := hx hagree ha
  obtain ⟨hkept', last', hb', hlast⟩ := hf locals a mid ha hmid hb
  exact ⟨hkept'.trans hkept, last', state_bind_ok.mpr ⟨a, mid', ha', hb'⟩, hlast⟩

lemma Ignores.bind {x : Eval α} {f : α → Eval β} (hx : x.Ignores name)
    (hf : ∀ a, (f a).Ignores name) : (x >>= f).Ignores name :=
  hx.bind_ok fun _ a _ _ => hf a

lemma Ignores.map {x : Eval α} {g : α → β} (hx : x.Ignores name) : (g <$> x).Ignores name := by
  rw [map_eq_pure_bind]
  exact hx.bind fun _ => ignores_pure

lemma Ignores.ite {c : Prop} [Decidable c] {x y : Eval α} (hx : x.Ignores name)
    (hy : y.Ignores name) : (if c then x else y).Ignores name := by
  split_ifs
  · exact hx
  · exact hy

lemma ignores_throw {e : EvalError} : (throw e : Eval α).Ignores name :=
  fun _ _ _ _ _ h => by cases h

lemma ignores_lift {x : Except EvalError α} : (liftM x : Eval α).Ignores name := by
  cases x with
  | ok a => exact ignores_pure
  | error e => exact ignores_throw

lemma ignores_ofProperty {x : Except PropertyError α} : (ofProperty x).Ignores name := by
  cases x with
  | ok a => exact ignores_pure
  | error e => exact ignores_throw

/-- What is done with the locals may depend on the other names. -/
lemma ignores_get {f : Locals → Eval α}
    (hsame : ∀ locals locals', AgreeOff name locals locals' → f locals' = f locals)
    (hf : ∀ locals, (f locals).Ignores name) : (get >>= f : Eval α).Ignores name := by
  intro locals locals' hagree a mid h
  obtain ⟨hkept, mid', h', hmid⟩ := hf locals hagree h
  refine ⟨hkept, mid', ?_, hmid⟩
  rw [← hsame locals locals' hagree] at h'
  exact h'

variable {tiers : Tiers}

lemma ignores_store {root : String} (hroot : root ≠ name) (path : List String) (v : Value) :
    (store tiers root path v).Ignores name := by
  intro locals locals' hagree _ mid h
  cases path with
  | nil =>
    rw [store_variable h]
    exact ⟨Entries.find?_put_of_ne hroot.symm, _, rfl, hagree.put root v⟩
  | cons key keys =>
    obtain ⟨old, new, hlookup, hset, rfl⟩ := store_path_ok.mp h
    have hlookup' : tiers.lookup locals' root = .ok old := by
      rw [Tiers.lookup_congr (hagree root hroot), hlookup]
    refine ⟨?_, _, store_path_ok.mpr ⟨old, new, hlookup', hset, rfl⟩, ?_⟩
    · rw [Entries.find?_put_of_ne hroot.symm, Entries.find?_put_of_ne hroot.symm]
    · exact (hagree.put root old).put root new

end Eval

variable {tiers : Tiers}

lemma ignores_store_place {target : Expr} (h : name ∉ target.names)
    (hplace : (place tiers target).Ignores name) (v : Value) {f : Unit → Eval α}
    (hf : ∀ u, (f u).Ignores name) :
    (do let (root, path) ← place tiers target; let u ← store tiers root path v; f u :
      Eval α).Ignores name := by
  refine hplace.bind_ok fun locals p mid hp => ?_
  obtain ⟨root, path⟩ := p
  have hroot : root ≠ name := by
    rintro rfl
    exact h (place_root target hp)
  exact (ignores_store hroot path v).bind hf

mutual

/-- An evaluation ignores the names that its expression does not mention. -/
theorem eval_ignores : ∀ e : Expr, name ∉ e.names → (eval tiers e).Ignores name
  | .literal v, _ => ignores_pure
  | .ident m, h => by
    have hm : m ≠ name := by simpa [eq_comm] using h
    refine ignores_get (fun locals locals' hagree => ?_) fun locals => ignores_lift
    rw [Tiers.lookup_congr (hagree m hm)]
  | .array items, h => by
    rw [Expr.names_array] at h
    exact (evalList_ignores items h).bind fun _ => ignores_pure
  | .object entries, h => by
    rw [Expr.names_object] at h
    exact (evalEntries_ignores entries h).bind fun _ => ignores_pure
  | .member target property, h => by
    rw [Expr.names_member] at h
    exact (eval_ignores target h).bind fun _ => ignores_ofProperty
  | .index target key, h => by
    rw [Expr.names_index, List.mem_append, not_or] at h
    exact (eval_ignores target h.1).bind fun _ => (eval_ignores key h.2).bind fun _ =>
      ignores_ofProperty
  | .call m args, h => by
    rw [Expr.names_call, List.mem_cons, not_or] at h
    refine (evalList_ignores args h.2).bind fun vs => ignores_get (fun locals locals' hagree => ?_)
      fun locals => ignores_lift.bind fun f => ?_
    · rw [Tiers.callee_congr (hagree m (Ne.symm h.1))]
    · split
      · exact ignores_pure
      · exact ignores_throw
  | .unary _ operand, h => by
    rw [Expr.names_unary] at h
    exact (eval_ignores operand h).bind fun _ => ignores_pure
  | .binary _ left right, h => by
    rw [Expr.names_binary, List.mem_append, not_or] at h
    exact (eval_ignores left h.1).bind fun _ => (eval_ignores right h.2).bind fun _ =>
      ignores_pure
  | .logical _ left right, h => by
    rw [Expr.names_logical, List.mem_append, not_or] at h
    exact (eval_ignores left h.1).bind fun _ => .ite ignores_pure (eval_ignores right h.2)
  | .conditional test yes no, h => by
    rw [Expr.names_conditional, List.mem_append, List.mem_append, not_or, not_or] at h
    exact (eval_ignores test h.1).bind fun _ => .ite (eval_ignores yes h.2.1)
      (eval_ignores no h.2.2)
  | .assign op target value, h => by
    rw [Expr.names_assign, List.mem_append, not_or] at h
    have htarget := eval_ignores target h.1
    have hvalue := eval_ignores value h.2
    have hstore (v : Value) :=
      ignores_store_place (f := fun _ => pure v) h.1 (place_ignores target h.1) v fun _ =>
        ignores_pure
    cases op with
    | set => exact hvalue.bind hstore
    | add => exact hvalue.bind fun _ => htarget.map.bind hstore
    | sub => exact hvalue.bind fun _ => htarget.map.bind hstore
  | .update _ _ target, h => by
    rw [Expr.names_update] at h
    exact (eval_ignores target h).bind fun _ =>
      ignores_store_place h (place_ignores target h) _ fun _ => ignores_pure
  | .sequence items, h => by
    rw [Expr.names_sequence] at h
    exact (evalList_ignores items h).bind fun _ => ignores_pure

theorem place_ignores : ∀ e : Expr, name ∉ e.names → (place tiers e).Ignores name
  | .ident _, _ => ignores_pure
  | .member target _, h => by
    rw [Expr.names_member] at h
    exact (place_ignores target h).bind fun _ => ignores_pure
  | .index target key, h => by
    rw [Expr.names_index, List.mem_append, not_or] at h
    exact (place_ignores target h.1).bind fun _ => (eval_ignores key h.2).bind fun _ =>
      ignores_pure
  | .literal _, _ | .array _, _ | .object _, _ | .call _ _, _ | .unary _ _, _ | .binary _ _ _, _
  | .logical _ _ _, _ | .conditional _ _ _, _ | .assign _ _ _, _ | .update _ _ _, _
  | .sequence _, _ => by
    simp only [place]
    exact ignores_throw

theorem evalList_ignores : ∀ es : List Expr, name ∉ es.flatMap Expr.names →
    (evalList tiers es).Ignores name
  | [], _ => ignores_pure
  | e :: es, h => by
    rw [List.flatMap_cons, List.mem_append, not_or] at h
    exact (eval_ignores e h.1).bind fun _ => (evalList_ignores es h.2).bind fun _ =>
      ignores_pure

theorem evalEntries_ignores : ∀ es : List (String × Expr),
    name ∉ es.flatMap (fun p => p.2.names) → (evalEntries tiers es).Ignores name
  | [], _ => ignores_pure
  | (_, e) :: es, h => by
    rw [List.flatMap_cons, List.mem_append, not_or] at h
    exact (eval_ignores e h.1).bind fun _ => (evalEntries_ignores es h.2).bind fun _ =>
      ignores_pure

end

end Stencil.Script
