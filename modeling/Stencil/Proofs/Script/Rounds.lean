import Stencil.Proofs.Outcome
import Stencil.Script.Exec

/-!
The rounds of a loop, one after the other.

A loop comes to its test, starts its body if the test holds, and comes to the test again after the
body and the update. The frames in which it does so are the same for every bound on the rounds.
-/

namespace Stencil.Script

open Exec

variable (tiers : Tiers) (test update : Option Expr) (body : Exec Flow)

/-- A loop that comes to its test in the first frame comes to it in another one after so many
rounds, each of which has asked for the next. -/
inductive Tests (first : Frame) : ℕ → Frame → Prop
  | first : Tests first 0 first
  | again {k : ℕ} {frame last : Frame} : Tests first k frame →
    loopRound tiers test update body frame = some (.ok (true, last)) → Tests first (k + 1) last

/-- The loop starts its body after so many rounds, with the test in one frame and the body in
another. -/
structure Starts (first : Frame) (k : ℕ) (frame entry : Frame) : Prop where
  tests : Tests tiers test update body first k frame
  holds : ofEval (holds tiers test) frame = some (.ok (true, entry))

variable {tiers test update body} {first frame last : Frame} {k : ℕ}

/-! ### One round -/

lemma ofEval_eq_ok {α : Type} {x : Eval α} {a : α} : ofEval x frame = some (.ok (a, last)) ↔
    x frame.locals = .ok (a, last.locals) ∧ last.out = frame.out := by
  unfold ofEval
  rcases x frame.locals with e | ⟨a', locals⟩
  · exact ⟨fun h => (by cases h), fun h => (by cases h.1)⟩
  · constructor
    · intro h
      cases h
      exact ⟨rfl, rfl⟩
    · obtain ⟨locals', out⟩ := last
      rintro ⟨hx, hout⟩
      cases hx
      cases hout
      rfl

/-- What a round does after its body has ended: it goes on with the update. -/
lemma update_true {x : Exec (Option Value)} :
    (do discard x; return true : Exec Bool) frame = some (.ok (true, last)) ↔
      ∃ v, x frame = some (.ok (v, last)) := by
  change ((x >>= fun _ => pure ()) >>= fun _ => pure true) frame = _ ↔ _
  simp only [bind_assoc, pure_bind]
  rw [run_bind_ok]
  constructor
  · rintro ⟨v, mid, hx, hlast⟩
    cases hlast
    exact ⟨v, hx⟩
  · rintro ⟨v, hx⟩
    exact ⟨v, last, hx, rfl⟩

/-- A round asks for another one when it has gone through the test, the body and the update. -/
lemma loopRound_true : loopRound tiers test update body frame = some (.ok (true, last)) ↔
    ∃ entry, ofEval (holds tiers test) frame = some (.ok (true, entry)) ∧
      ∃ flow mid, body entry = some (.ok (flow, mid)) ∧ flow ≠ .leave ∧
        ∃ v, ofEval (evalOption tiers update) mid = some (.ok (v, last)) := by
  rw [loopRound, run_bind_ok]
  constructor
  · rintro ⟨b, entry, hholds, h⟩
    cases b with
    | false => cases h
    | true =>
      rw [if_pos rfl] at h
      obtain ⟨flow, mid, hbody, h⟩ := run_bind_ok.mp h
      by_cases hleave : flow = .leave
      · rw [if_pos hleave] at h
        cases h
      · rw [if_neg hleave] at h
        exact ⟨entry, hholds, flow, mid, hbody, hleave, update_true.mp h⟩
  · rintro ⟨entry, hholds, flow, mid, hbody, hleave, hupdate⟩
    refine ⟨true, entry, hholds, ?_⟩
    rw [if_pos rfl]
    refine run_bind_ok.mpr ⟨flow, mid, hbody, ?_⟩
    rw [if_neg hleave]
    exact update_true.mpr hupdate

/-- After so many rounds there is one frame for the next test. -/
lemma Tests.unique {frame' : Frame} (h : Tests tiers test update body first k frame)
    (h' : Tests tiers test update body first k frame') : frame = frame' := by
  induction h generalizing frame' with
  | first =>
    cases h'
    rfl
  | again _ hround ih =>
    obtain - | ⟨hprev, hround'⟩ := h'
    rw [← ih hprev, hround] at hround'
    cases hround'
    rfl

lemma Starts.unique {entry frame' entry' : Frame}
    (h : Starts tiers test update body first k frame entry)
    (h' : Starts tiers test update body first k frame' entry') :
    frame = frame' ∧ entry = entry' := by
  obtain ⟨htests, hholds⟩ := h
  obtain ⟨htests', hholds'⟩ := h'
  obtain rfl := htests.unique htests'
  rw [hholds] at hholds'
  cases hholds'
  exact ⟨rfl, rfl⟩

/-- A loop goes on from a later test as it does from the first one, with fewer rounds left. -/
lemma rounds_of_tests (h : Tests tiers test update body first k frame) (n : ℕ) :
    rounds (k + n) (loopRound tiers test update body) first =
      rounds n (loopRound tiers test update body) frame := by
  induction h generalizing n with
  | first => rw [Nat.zero_add]
  | again _ hround ih =>
    rw [Nat.add_right_comm, Nat.add_assoc, ih (n + 1), rounds, run_bind, hround]
    rfl

end Stencil.Script
