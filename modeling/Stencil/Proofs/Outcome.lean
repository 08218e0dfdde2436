import Mathlib.Tactic.Common

/-!
Outcomes of composed computations that may fail and that carry a state.
-/

namespace Stencil

variable {σ ε α β : Type}

lemma except_bind_ok {x : Except ε α} {f : α → Except ε β} {b : β} :
    (x >>= f) = .ok b ↔ ∃ a, x = .ok a ∧ f a = .ok b := by
  cases x <;> simp [bind, Except.bind]

lemma except_bind_error {x : Except ε α} {f : α → Except ε β} {e : ε} :
    (x >>= f) = .error e ↔ x = .error e ∨ ∃ a, x = .ok a ∧ f a = .error e := by
  cases x <;> simp [bind, Except.bind]

/-- A composed computation succeeds when its parts do, one after the other. -/
lemma state_bind_ok {x : StateT σ (Except ε) α} {f : α → StateT σ (Except ε) β} {s s' : σ} {b : β} :
    (x >>= f) s = .ok (b, s') ↔
      ∃ a mid, x s = .ok (a, mid) ∧ f a mid = .ok (b, s') := by
  cases hx : x s with
  | error e => simp [bind, StateT.bind, Except.bind, hx]
  | ok p =>
    obtain ⟨a, mid⟩ := p
    simp [bind, StateT.bind, Except.bind, hx]

/-- A composed computation fails as the first of its parts that fails. -/
lemma state_bind_error {x : StateT σ (Except ε) α} {f : α → StateT σ (Except ε) β} {s : σ} {e : ε} :
    (x >>= f) s = .error e ↔
      x s = .error e ∨ ∃ a mid, x s = .ok (a, mid) ∧ f a mid = .error e := by
  cases hx : x s with
  | error e => simp [bind, StateT.bind, Except.bind, hx]
  | ok p =>
    obtain ⟨a, mid⟩ := p
    simp [bind, StateT.bind, Except.bind, hx]

/-- Two continuations that agree on the result of the first part make the same outcome. -/
lemma state_bind_congr_at {x : StateT σ (Except ε) α} {f g : α → StateT σ (Except ε) β} {s : σ}
    (h : ∀ a mid, x s = .ok (a, mid) → f a mid = g a mid) : (x >>= f) s = (x >>= g) s := by
  rcases hx : x s with e | ⟨a, mid⟩
  · simp [bind, StateT.bind, Except.bind, hx]
  · simp [bind, StateT.bind, Except.bind, hx, h a mid hx]

/-- Two continuations that agree on all results of the first part make the same computation. -/
lemma state_bind_congr {x : StateT σ (Except ε) α} {f g : α → StateT σ (Except ε) β}
    (h : ∀ s a mid, x s = .ok (a, mid) → f a = g a) : x >>= f = x >>= g :=
  funext fun s => state_bind_congr_at fun a mid hx => congrFun (h s a mid hx) mid

/-! ### Runs that may also come to no end -/

variable {x : StateT σ (ExceptT ε Option) α} {f : α → StateT σ (ExceptT ε Option) β}

lemma run_bind (s : σ) :
    (x >>= f) s =
      match (x s : Option (Except ε (α × σ))) with
      | none => (none : Option (Except ε (β × σ)))
      | some (.error e) => some (.error e)
      | some (.ok (a, mid)) => f a mid := by
  simp only [bind, StateT.bind, ExceptT.bind, ExceptT.mk, Option.bind]
  rcases hx : x s with _ | e | ⟨a, mid⟩ <;> rfl

lemma run_bind_ok {s s' : σ} {b : β} :
    (x >>= f) s = some (.ok (b, s')) ↔
      ∃ a mid, x s = some (.ok (a, mid)) ∧ f a mid = some (.ok (b, s')) := by
  rw [run_bind]
  constructor
  · rcases hx : x s with _ | e | ⟨a, mid⟩ <;> intro h
    · cases h
    · cases h
    · exact ⟨a, mid, rfl, h⟩
  · rintro ⟨a, mid, hx, h⟩
    rw [hx]
    exact h

lemma run_bind_error {s : σ} {e : ε} :
    (x >>= f) s = some (.error e) ↔
      x s = some (.error e) ∨ ∃ a mid, x s = some (.ok (a, mid)) ∧ f a mid = some (.error e) := by
  rw [run_bind]
  constructor
  · rcases hx : x s with _ | e' | ⟨a, mid⟩ <;> intro h
    · cases h
    · cases h
      exact .inl rfl
    · exact .inr ⟨a, mid, rfl, h⟩
  · rintro (hx | ⟨a, mid, hx, h⟩)
    · rw [hx]
    · rw [hx]
      exact h

lemma run_bind_congr {g : α → StateT σ (ExceptT ε Option) β}
    (h : ∀ s a mid, x s = some (.ok (a, mid)) → f a = g a) : x >>= f = x >>= g := by
  funext s
  rw [run_bind, run_bind]
  rcases hx : x s with _ | e | ⟨a, mid⟩
  · rfl
  · rfl
  · exact congrFun (h s a mid hx) mid

end Stencil
