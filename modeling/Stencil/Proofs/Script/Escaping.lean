import Stencil.Proofs.Outcome
import Stencil.Proofs.Script.Outputs
import Stencil.Proofs.Text.Entity
import Stencil.Script.Exec

/-!
What a run writes.

A run only adds to its output, and whatever it adds comes from the outputs of the program. So a
property of what single outputs write passes to every part of a run.
-/

namespace Stencil.Script

variable {α β : Type} {P Q : String → Prop}

/-! ### Texts in pieces -/

/-- The text is put together of pieces with the property. -/
def InPieces (P : String → Prop) (text : String) : Prop :=
  ∃ pieces : List String, text = String.join pieces ∧ ∀ piece ∈ pieces, P piece

lemma inPieces_empty : InPieces P "" := ⟨[], by simp, by simp⟩

lemma inPieces_single {piece : String} (h : P piece) : InPieces P piece :=
  ⟨[piece], by simp, by simpa using h⟩

lemma InPieces.append {s t : String} (hs : InPieces P s) (ht : InPieces P t) :
    InPieces P (s ++ t) := by
  obtain ⟨ss, rfl, hss⟩ := hs
  obtain ⟨ts, rfl, hts⟩ := ht
  refine ⟨ss ++ ts, String.join_append.symm, fun piece hpiece => ?_⟩
  exact (List.mem_append.mp hpiece).elim (hss piece) (hts piece)

namespace Exec

/-- A run that ends well adds only pieces with the property to the output. -/
def Adds (x : Exec α) (P : String → Prop) : Prop :=
  ∀ ⦃frame frame' : Frame⦄ ⦃a : α⦄, x frame = some (.ok (a, frame')) →
    ∃ text, frame'.out = frame.out ++ text ∧ InPieces P text

lemma adds_pure {a : α} : (pure a : Exec α).Adds P := by
  intro frame frame' a' h
  cases h
  exact ⟨"", by simp, inPieces_empty⟩

lemma adds_beyond : (beyond : Exec α).Adds P := fun _ _ _ h => by cases h

lemma Adds.bind {x : Exec α} {f : α → Exec β} (hx : x.Adds P) (hf : ∀ a, (f a).Adds P) :
    (x >>= f).Adds P := by
  intro frame frame' b h
  obtain ⟨a, mid, ha, hb⟩ := run_bind_ok.mp h
  obtain ⟨s, hs, hps⟩ := hx ha
  obtain ⟨t, ht, hpt⟩ := hf a hb
  exact ⟨s ++ t, by rw [ht, hs, String.append_assoc], hps.append hpt⟩

lemma Adds.discard {x : Exec α} (hx : x.Adds P) : (discard x).Adds P := by
  change (x >>= fun _ => pure ()).Adds P
  exact hx.bind fun _ => adds_pure

/-- Evaluations write nothing. -/
lemma adds_ofEval {x : Eval α} : (ofEval x).Adds P := by
  intro frame frame' a h
  unfold ofEval at h
  split at h
  · cases h
    exact ⟨"", by simp, inPieces_empty⟩
  · cases h

lemma adds_write {text : String} (h : P text) : (write text).Adds P := by
  intro frame frame' u hw
  cases hw
  exact ⟨text, rfl, inPieces_single h⟩

lemma Adds.ite {c : Prop} [Decidable c] {x y : Exec α} (hx : x.Adds P) (hy : y.Adds P) :
    (if c then x else y).Adds P := by
  split_ifs
  · exact hx
  · exact hy

lemma Adds.rounds {round : Exec Bool} (h : round.Adds P) (bound : ℕ) :
    (rounds bound round).Adds P := by
  induction bound with
  | zero => exact adds_beyond
  | succ bound ih => exact h.bind fun _ => .ite ih adds_pure

end Exec

open Exec

/-! ### Runs of statements -/

variable {tiers : Tiers} {bound : ℕ}

lemma adds_loopRound {test update : Option Expr} {body : Exec Flow} (h : body.Adds P) :
    (loopRound tiers test update body).Adds P := by
  have hupdate : (do discard <| ofEval (evalOption tiers update); return true).Adds P :=
    adds_ofEval.discard.bind fun _ => adds_pure
  exact adds_ofEval.bind fun _ => .ite (h.bind fun _ => .ite adds_pure hupdate) adds_pure

/-- The outputs write only pieces with the property. -/
def WriteOnly (tiers : Tiers) (P : String → Prop) (os : List Output) : Prop :=
  ∀ o ∈ os, (writeOutput tiers o).Adds P

lemma WriteOnly.left {os os' : List Output} (h : WriteOnly tiers P (os ++ os')) :
    WriteOnly tiers P os :=
  fun o ho => h o (List.mem_append_left _ ho)

lemma WriteOnly.right {os os' : List Output} (h : WriteOnly tiers P (os ++ os')) :
    WriteOnly tiers P os' :=
  fun o ho => h o (List.mem_append_right _ ho)

mutual

/-- A statement writes what the outputs in it write. -/
theorem exec_adds (bound : ℕ) :
    ∀ s : Stmt, WriteOnly tiers P s.outputs → (exec tiers bound s).Adds P
  | .output o, h => by
    have ho : (writeOutput tiers o).Adds P := h o (by simp [Stmt.outputs])
    exact ho.bind fun _ => adds_pure
  | .expr e, _ => adds_ofEval.discard.bind fun _ => adds_pure
  | .declare bindings, _ => adds_ofEval.bind fun _ => adds_pure
  | .block body, h => execAll_adds bound body h
  | .branch test yes no, h => by
    have hyes := exec_adds bound yes h.left
    have hno := execOption_adds bound no h.right
    exact adds_ofEval.bind fun _ => .ite hyes hno
  | .forLoop init test update body, h => by
    have hinit := execOption_adds bound init h.left
    have hbody := exec_adds bound body h.right
    have hloop : (rounds bound (loopRound tiers test update (exec tiers bound body))).Adds P :=
      (adds_loopRound hbody).rounds bound
    exact hinit.discard.bind fun _ => hloop.bind fun _ => adds_pure
  | .whileLoop test body, h => by
    have hbody := exec_adds bound body h
    have hloop : (rounds bound (loopRound tiers (some test) none (exec tiers bound body))).Adds P :=
      (adds_loopRound hbody).rounds bound
    exact hloop.bind fun _ => adds_pure
  | .leave, _ => adds_pure
  | .resume, _ => adds_pure
  | .empty, _ => adds_pure

theorem execOption_adds (bound : ℕ) :
    ∀ s : Option Stmt, WriteOnly tiers P (Stmt.outputsOption s) →
      (execOption tiers bound s).Adds P
  | none, _ => adds_pure
  | some s, h => exec_adds bound s h

/-- The statements after one that does not end normally write nothing. -/
theorem execAll_adds (bound : ℕ) :
    ∀ ss : List Stmt, WriteOnly tiers P (Stmt.outputsAll ss) → (execAll tiers bound ss).Adds P
  | [], _ => adds_pure
  | s :: ss, h => by
    have hs := exec_adds bound s h.left
    have hss := execAll_adds bound ss h.right
    exact hs.bind fun _ => .ite hss adds_pure

end

/-! ### Whole runs -/

lemma execTop_adds {ss : List Stmt} (h : WriteOnly tiers P (Stmt.outputsAll ss)) :
    (execTop tiers bound ss).Adds P := by
  induction ss with
  | nil => exact adds_pure
  | cons s ss ih => exact (exec_adds bound s h.left).discard.bind fun _ => ih h.right

lemma run_inPieces {p : Program} {out : String} (hp : WriteOnly tiers P p.outputs)
    (h : run tiers bound p = some (.ok out)) : InPieces P out := by
  unfold run at h
  split at h
  · cases h
  · cases h
  · cases h
    rename_i frame hrun
    obtain ⟨text, heq, hpieces⟩ := execTop_adds hp hrun
    rw [heq, String.empty_append]
    exact hpieces

/-- An output other than a raw one writes its own text or escaped text. -/
lemma writeOutput_adds {os : List Output} {o : Output} (ho : o ∈ os) (hraw : ∀ e, .raw e ∉ os) :
    (writeOutput tiers o).Adds fun piece => .literal piece ∈ os ∨ Text.Inert piece := by
  cases o with
  | literal text => exact adds_write (.inl ho)
  | escaped e => exact adds_ofEval.bind fun v => adds_write (.inr (Text.escapeText_inert _))
  | raw e => exact (hraw e ho).elim

/-- **Runs are safe**: without raw outputs, a run writes nothing but the literal texts of the
program and texts without any markup, whatever the data and the helpers are. -/
theorem run_escaped (tiers : Tiers) (bound : ℕ) (p : Program) (out : String)
    (hraw : ∀ e, .raw e ∉ p.outputs) (h : run tiers bound p = some (.ok out)) :
    ∃ pieces : List String, out = String.join pieces ∧
      ∀ piece ∈ pieces, .literal piece ∈ p.outputs ∨ Text.Inert piece :=
  run_inPieces (fun _ ho => writeOutput_adds ho hraw) h

/-- A paragraph with a text from the data. -/
def paragraph : Program :=
  ⟨[.output (.literal "<p>"), .output (.escaped (.ident "text")), .output (.literal "</p>")]⟩

theorem run_escaped_paragraph :
    run ⟨.obj [("text", .str "<b>")], .empty, []⟩ 0 paragraph = some (.ok "<p>&lt;b&gt;</p>") ∧
      ∃ pieces : List String, "<p>&lt;b&gt;</p>" = String.join pieces ∧
        ∀ piece ∈ pieces, .literal piece ∈ paragraph.outputs ∨ Text.Inert piece := by
  have hrun : run ⟨.obj [("text", .str "<b>")], .empty, []⟩ 0 paragraph =
      some (.ok "<p>&lt;b&gt;</p>") := rfl
  refine ⟨hrun, run_escaped _ _ _ _ ?_ hrun⟩
  simp [paragraph, Program.outputs, Stmt.outputsAll, Stmt.outputs]

end Stencil.Script
