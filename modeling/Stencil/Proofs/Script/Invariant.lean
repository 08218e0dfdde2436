import Stencil.Proofs.Outcome
import Stencil.Proofs.Script.Parts
import Stencil.Script.Exec

/-!
What every run of a program keeps to.

A run keeps an invariant of its locals, and fails only with errors that are allowed, if this is so
of each evaluation and each declaration of its statements. How a statement ends can be seen from
the jumps in it.
-/

namespace Stencil.Script

variable {α β : Type} {I : Locals → Prop} {E : EvalError → Prop}

/-! ### Evaluations -/

namespace Eval

/-- From locals with the invariant, an evaluation ends with such locals or with an allowed error. -/
def Keeps (x : Eval α) (I : Locals → Prop) (E : EvalError → Prop) : Prop :=
  ∀ ⦃locals : Locals⦄, I locals →
    (∀ a locals', x locals = .ok (a, locals') → I locals') ∧ ∀ e, x locals = .error e → E e

lemma keeps_pure {a : α} : (pure a : Eval α).Keeps I E := by
  intro locals hI
  refine ⟨fun a' locals' h => ?_, fun e h => by cases h⟩
  cases h
  exact hI

/-- What follows may rely on a result that the first part can have. -/
lemma Keeps.bind_ok {x : Eval α} {f : α → Eval β} (hx : x.Keeps I E)
    (hf : ∀ locals a mid, x locals = .ok (a, mid) → (f a).Keeps I E) : (x >>= f).Keeps I E := by
  intro locals hI
  constructor
  · intro b locals' h
    obtain ⟨a, mid, ha, hb⟩ := state_bind_ok.mp h
    have hmid : I mid := (hx hI).1 a mid ha
    exact (hf locals a mid ha hmid).1 b locals' hb
  · intro e h
    rcases state_bind_error.mp h with he | ⟨a, mid, ha, he⟩
    · exact (hx hI).2 e he
    · have hmid : I mid := (hx hI).1 a mid ha
      exact (hf locals a mid ha hmid).2 e he

lemma Keeps.bind {x : Eval α} {f : α → Eval β} (hx : x.Keeps I E) (hf : ∀ a, (f a).Keeps I E) :
    (x >>= f).Keeps I E :=
  hx.bind_ok fun _ a _ _ => hf a

lemma Keeps.map {x : Eval α} {g : α → β} (hx : x.Keeps I E) : (g <$> x).Keeps I E := by
  rw [map_eq_pure_bind]
  exact hx.bind fun _ => keeps_pure

lemma Keeps.ite {c : Prop} [Decidable c] {x y : Eval α} (hx : x.Keeps I E) (hy : y.Keeps I E) :
    (if c then x else y).Keeps I E := by
  split_ifs
  · exact hx
  · exact hy

lemma keeps_throw {e : EvalError} (h : E e) : (throw e : Eval α).Keeps I E := by
  intro locals _
  refine ⟨fun a locals' h' => (by cases h'), fun e' h' => ?_⟩
  cases h'
  exact h

lemma keeps_lift {x : Except EvalError α} (h : ∀ e, x = .error e → E e) :
    (liftM x : Eval α).Keeps I E := by
  cases x with
  | ok a => exact keeps_pure
  | error e => exact keeps_throw (h e rfl)

/-- What follows may rely on the invariant of the locals that were read. -/
lemma keeps_get {f : Locals → Eval α} (h : ∀ locals, I locals → (f locals).Keeps I E) :
    (get >>= f : Eval α).Keeps I E :=
  fun locals hI => h locals hI hI

lemma keeps_modify {g : Locals → Locals} (h : ∀ locals, I locals → I (g locals)) :
    (modify g : Eval Unit).Keeps I E := by
  intro locals hI
  refine ⟨fun u locals' h' => ?_, fun e h' => by cases h'⟩
  cases h'
  exact h locals hI

lemma keeps_set {locals : Locals} (h : I locals) : (set locals : Eval PUnit).Keeps I E := by
  intro _ _
  refine ⟨fun u locals' h' => ?_, fun e h' => (by cases h')⟩
  cases h'
  exact h

lemma keeps_ofProperty {x : Except PropertyError α} (h : ∀ e, x = .error e → E (.property e)) :
    (ofProperty x).Keeps I E := by
  cases x with
  | ok a => exact keeps_pure
  | error e => exact keeps_throw (h e rfl)

end Eval

/-! ### Runs -/

namespace Exec

/-- From locals with the invariant, a run that comes to an end keeps it and has a result with the
property, or fails with an allowed error. -/
def Ensures (x : Exec α) (I : Locals → Prop) (E : EvalError → Prop) (Q : α → Prop) : Prop :=
  ∀ ⦃frame : Frame⦄, I frame.locals →
    (∀ a frame', x frame = some (.ok (a, frame')) → I frame'.locals ∧ Q a) ∧
      ∀ e, x frame = some (.error e) → E e

variable {P : α → Prop} {Q : β → Prop}

lemma ensures_pure {b : β} (h : Q b) : (pure b : Exec β).Ensures I E Q := by
  intro frame hI
  refine ⟨fun b' frame' h' => ?_, fun e h' => (by cases h')⟩
  cases h'
  exact ⟨hI, h⟩

lemma ensures_beyond : (beyond : Exec β).Ensures I E Q :=
  fun _ _ => ⟨fun _ _ h => (by cases h), fun _ h => (by cases h)⟩

lemma Ensures.bind {x : Exec α} {f : α → Exec β} (hx : x.Ensures I E P)
    (hf : ∀ a, P a → (f a).Ensures I E Q) : (x >>= f).Ensures I E Q := by
  intro frame hI
  constructor
  · intro b frame' h
    obtain ⟨a, mid, ha, hb⟩ := run_bind_ok.mp h
    obtain ⟨hmid, hpa⟩ := (hx hI).1 a mid ha
    exact (hf a hpa hmid).1 b frame' hb
  · intro e h
    rcases run_bind_error.mp h with he | ⟨a, mid, ha, he⟩
    · exact (hx hI).2 e he
    · obtain ⟨hmid, hpa⟩ := (hx hI).1 a mid ha
      exact (hf a hpa hmid).2 e he

lemma Ensures.mono {x : Exec α} {P' : α → Prop} (hx : x.Ensures I E P) (h : ∀ a, P a → P' a) :
    x.Ensures I E P' :=
  fun _ hI => ⟨fun a frame' h' => ((hx hI).1 a frame' h').imp_right (h a), (hx hI).2⟩

lemma Ensures.ite {c : Prop} [Decidable c] {x y : Exec β} (hx : c → x.Ensures I E Q)
    (hy : ¬c → y.Ensures I E Q) : (if c then x else y).Ensures I E Q := by
  split_ifs with hc
  · exact hx hc
  · exact hy hc

lemma Ensures.discard {x : Exec α} (hx : x.Ensures I E P) :
    (discard x).Ensures I E fun _ => True := by
  change (x >>= fun _ => pure ()).Ensures I E fun _ => True
  exact hx.bind fun _ _ => ensures_pure trivial

lemma ensures_ofEval {x : Eval α} (h : x.Keeps I E) : (ofEval x).Ensures I E fun _ => True := by
  intro frame hI
  unfold ofEval
  rcases hx : x frame.locals with e | ⟨a, locals'⟩
  · refine ⟨fun a frame' h' => (by cases h'), fun e' h' => ?_⟩
    cases h'
    exact (h hI).2 e hx
  · refine ⟨fun a' frame' h' => ?_, fun e' h' => (by cases h')⟩
    cases h'
    exact ⟨(h hI).1 a locals' hx, trivial⟩

lemma ensures_write {text : String} : (write text).Ensures I E fun _ => True := by
  intro frame hI
  refine ⟨fun u frame' h => ?_, fun e h => (by cases h)⟩
  cases h
  exact ⟨hI, trivial⟩

lemma Ensures.rounds {P : Bool → Prop} {round : Exec Bool} (h : round.Ensures I E P)
    (bound : ℕ) : (rounds bound round).Ensures I E fun _ => True := by
  induction bound with
  | zero => exact ensures_beyond
  | succ bound ih => exact h.bind fun _ _ => .ite (fun _ => ih) fun _ => ensures_pure trivial

end Exec

open Eval Exec

variable {tiers : Tiers} {bound : ℕ}

/-- The names that a statement itself declares, with the expressions for their values. -/
def Stmt.bindings : Stmt → List (String × Option Expr)
  | .declare bindings => bindings
  | _ => []

/-- A statement itself may bind a name to a value, or declare it without one. -/
def Stmt.Declares (s : Stmt) (name : String) (v : Option Value) : Prop :=
  ∃ init, (name, init) ∈ s.bindings ∧ v.isSome = init.isSome

lemma Stmt.Declares.mem_declared {s : Stmt} {name : String} {v : Option Value}
    (h : s.Declares name v) : name ∈ s.declared := by
  obtain ⟨init, hmem, -⟩ := h
  cases s with
  | declare bindings => exact List.mem_map_of_mem hmem
  | _ => cases hmem

/-- The expressions and the declarations of a statement itself keep the invariant, and the
expressions fail only with errors that are allowed. -/
structure Stmt.Keeps (tiers : Tiers) (I : Locals → Prop) (E : EvalError → Prop) (s : Stmt) :
    Prop where
  exprs : ∀ e ∈ s.exprs, (eval tiers e).Keeps I E
  declared : ∀ name v, s.Declares name v → ∀ locals, I locals → I (tiers.declare locals name v)

lemma evalOption_isSome {e : Option Expr} {v : Option Value} {locals mid : Locals}
    (h : evalOption tiers e locals = .ok (v, mid)) : v.isSome = e.isSome := by
  cases e with
  | none =>
    cases h
    rfl
  | some e =>
    rw [evalOption, map_eq_pure_bind] at h
    obtain ⟨w, _, _, hlast⟩ := state_bind_ok.mp h
    cases hlast
    rfl

lemma keeps_evalOption {e : Option Expr} (h : ∀ e' ∈ e, (eval tiers e').Keeps I E) :
    (evalOption tiers e).Keeps I E := by
  cases e with
  | none => exact keeps_pure
  | some e => exact (h e rfl).map

lemma keeps_holds {test : Option Expr} (h : ∀ e ∈ test, (eval tiers e).Keeps I E) :
    (holds tiers test).Keeps I E := by
  cases test with
  | none => exact keeps_pure
  | some e => exact (h e rfl).bind fun _ => keeps_pure

lemma keeps_declareAll {bindings : List (String × Option Expr)}
    (h : (Stmt.declare bindings).Keeps tiers I E) : (declareAll tiers bindings).Keeps I E := by
  obtain ⟨hexprs, hdeclared⟩ := h
  induction bindings with
  | nil => exact keeps_pure
  | cons binding rest ih =>
    obtain ⟨name, init⟩ := binding
    have hinit : (evalOption tiers init).Keeps I E := by
      refine keeps_evalOption fun e he => hexprs e ?_
      cases he
      simp [Stmt.exprs]
    have hname : ∀ v, v.isSome = init.isSome →
        (modify (tiers.declare · name v) : Eval Unit).Keeps I E := fun v hv =>
      keeps_modify fun locals => hdeclared name v ⟨init, List.mem_cons_self, hv⟩ locals
    have hrest : (declareAll tiers rest).Keeps I E := by
      refine ih (fun e he => hexprs e ?_) fun m v hm => hdeclared m v ?_
      · cases init with
        | none => exact he
        | some _ => exact List.mem_cons_of_mem _ he
      · obtain ⟨init', hmem, hv⟩ := hm
        exact ⟨init', List.mem_cons_of_mem _ hmem, hv⟩
    exact hinit.bind_ok fun _ v _ hv => (hname v (evalOption_isSome hv)).bind fun _ => hrest

lemma ensures_writeOutput {o : Output} (h : ∀ e ∈ o.exprs, (eval tiers e).Keeps I E) :
    (writeOutput tiers o).Ensures I E fun _ => True := by
  cases o with
  | literal text => exact ensures_write
  | escaped e => exact (ensures_ofEval (h e (by simp [Output.exprs]))).bind fun _ _ => ensures_write
  | raw e => exact (ensures_ofEval (h e (by simp [Output.exprs]))).bind fun _ _ => ensures_write

lemma ensures_loopRound {test update : Option Expr} {body : Exec Flow} {P : Flow → Prop}
    (htest : ∀ e ∈ test, (eval tiers e).Keeps I E)
    (hupdate : ∀ e ∈ update, (eval tiers e).Keeps I E) (hbody : body.Ensures I E P) :
    (loopRound tiers test update body).Ensures I E fun _ => True := by
  have hnext : (do discard <| ofEval (evalOption tiers update); return true).Ensures I E
      fun _ => True :=
    (ensures_ofEval (keeps_evalOption hupdate)).discard.bind fun _ _ => ensures_pure trivial
  exact (ensures_ofEval (keeps_holds htest)).bind fun _ _ => .ite
    (fun _ => hbody.bind fun _ _ => .ite (fun _ => ensures_pure trivial) fun _ => hnext)
    fun _ => ensures_pure trivial

/-- A statement ends normally unless it jumps. -/
def Ends (jumps : Bool) (flow : Flow) : Prop := flow = .normal ∨ jumps = true

lemma Ends.mono {jumps jumps' : Bool} (h : jumps = true → jumps' = true) {flow : Flow}
    (hf : Ends jumps flow) : Ends jumps' flow :=
  hf.imp_right h

mutual

/-- A run of a statement keeps what its parts keep, and ends normally unless it jumps. -/
theorem exec_ensures : ∀ s : Stmt, (∀ x ∈ s.parts, x.Keeps tiers I E) →
    (exec tiers bound s).Ensures I E (Ends s.jumpsOut)
  | .output o, h => by
    obtain ⟨⟨hexprs, -⟩, -⟩ := Stmt.forall_mem_parts.mp h
    exact (ensures_writeOutput hexprs).bind fun _ _ => ensures_pure (.inl rfl)
  | .expr e, h => by
    obtain ⟨⟨hexprs, -⟩, -⟩ := Stmt.forall_mem_parts.mp h
    have he : (eval tiers e).Keeps I E := hexprs e (List.mem_singleton_self e)
    exact (ensures_ofEval he).discard.bind fun _ _ => ensures_pure (.inl rfl)
  | .declare bindings, h => by
    obtain ⟨hown, -⟩ := Stmt.forall_mem_parts.mp h
    exact (ensures_ofEval (keeps_declareAll hown)).bind fun _ _ => ensures_pure (.inl rfl)
  | .block body, h => execAll_ensures body (Stmt.forall_mem_parts.mp h).2
  | .branch test yes no, h => by
    obtain ⟨⟨hexprs, -⟩, hchildren⟩ := Stmt.forall_mem_parts.mp h
    have htest : (eval tiers test).Keeps I E := hexprs test (List.mem_singleton_self test)
    have hyes := exec_ensures yes (hchildren yes List.mem_cons_self)
    have hno := execOption_ensures no fun s hs =>
      hchildren s (List.mem_cons_of_mem _ (Option.mem_toList.mpr hs))
    refine (ensures_ofEval htest).bind fun _ _ => .ite (fun _ => ?_) fun _ => ?_
    · exact hyes.mono fun _ => Ends.mono fun hj => by simp [Stmt.jumpsOut, hj]
    · exact hno.mono fun _ => Ends.mono fun hj => by simp [Stmt.jumpsOut, hj]
  | .forLoop init test update body, h => by
    obtain ⟨⟨hexprs, -⟩, hchildren⟩ := Stmt.forall_mem_parts.mp h
    have hinit := execOption_ensures init fun s hs =>
      hchildren s (List.mem_append_left _ (Option.mem_toList.mpr hs))
    have hbody := exec_ensures body (hchildren body (by simp [Stmt.children]))
    have htest : ∀ e ∈ test, (eval tiers e).Keeps I E := fun e he =>
      hexprs e (List.mem_append_left _ (Option.mem_toList.mpr he))
    have hupdate : ∀ e ∈ update, (eval tiers e).Keeps I E := fun e he =>
      hexprs e (List.mem_append_right _ (Option.mem_toList.mpr he))
    exact hinit.discard.bind fun _ _ => ((ensures_loopRound htest hupdate hbody).rounds bound).bind
      fun _ _ => ensures_pure (.inl rfl)
  | .whileLoop test body, h => by
    obtain ⟨⟨hexprs, -⟩, hchildren⟩ := Stmt.forall_mem_parts.mp h
    have hbody := exec_ensures body (hchildren body (List.mem_singleton_self body))
    have htest : ∀ e ∈ some test, (eval tiers e).Keeps I E := by
      rintro e ⟨⟩
      exact hexprs _ (List.mem_singleton_self _)
    exact ((ensures_loopRound htest (by simp) hbody).rounds bound).bind fun _ _ =>
      ensures_pure (.inl rfl)
  | .leave, _ => ensures_pure (.inr rfl)
  | .resume, _ => ensures_pure (.inr rfl)
  | .empty, _ => ensures_pure (.inl rfl)

theorem execOption_ensures : ∀ s : Option Stmt,
    (∀ c ∈ s, ∀ x ∈ c.parts, x.Keeps tiers I E) →
    (execOption tiers bound s).Ensures I E (Ends (s.any Stmt.jumpsOut))
  | none, _ => ensures_pure (.inl rfl)
  | some s, h => exec_ensures s (h s rfl)

theorem execAll_ensures : ∀ ss : List Stmt, (∀ c ∈ ss, ∀ x ∈ c.parts, x.Keeps tiers I E) →
    (execAll tiers bound ss).Ensures I E (Ends (Stmt.jumpsOutAny ss))
  | [], _ => ensures_pure (.inl rfl)
  | s :: ss, h => by
    obtain ⟨hs, hss⟩ := List.forall_mem_cons.mp h
    refine (exec_ensures s hs).bind fun flow hflow => .ite (fun _ => ?_) fun hne => ?_
    · exact (execAll_ensures ss hss).mono fun _ => Ends.mono fun hj => by
        rw [Stmt.jumpsOutAny, hj, Bool.or_true]
    · exact ensures_pure (hflow.mono fun hj => by rw [Stmt.jumpsOutAny, hj, Bool.true_or])

end

lemma execTop_ensures {ss : List Stmt} (h : ∀ c ∈ ss, ∀ x ∈ c.parts, x.Keeps tiers I E) :
    (execTop tiers bound ss).Ensures I E fun _ => True := by
  induction ss with
  | nil => exact ensures_pure trivial
  | cons s ss ih =>
    obtain ⟨hs, hss⟩ := List.forall_mem_cons.mp h
    exact (exec_ensures s hs).discard.bind fun _ _ => ih hss

/-- A run fails with an allowed error or not at all. -/
lemma run_error {p : Program} {e : EvalError} (h : ∀ s ∈ p.stmts, s.Keeps tiers I E) (hI : I [])
    (hrun : run tiers bound p = some (.error e)) : E e := by
  have hbody : ∀ c ∈ p.body, ∀ x ∈ c.parts, x.Keeps tiers I E := fun c hc x hx =>
    h x (List.mem_flatMap_of_mem hc hx)
  unfold run at hrun
  split at hrun
  · cases hrun
  · rename_i e' htop
    cases hrun
    exact (execTop_ensures hbody hI).2 e htop
  · cases hrun

end Stencil.Script
