import Stencil.Proofs.Outcome
import Stencil.Script.Exec

/-!
Names and the locals of a run.

What a name stands for depends on the locals at that name alone, and a local hides whatever else
has its name. A declaration without a value leaves a name with a value as it is, but it hides a
helper.
-/

namespace Stencil

namespace Tiers

variable {t : Tiers} {locals locals' : Locals} {name : String} {v : Value} {f : Helper}

/-! ### What a name stands for -/

lemma value?_congr (h : Entries.find? locals' name = Entries.find? locals name) :
    t.value? locals' name = t.value? locals name := by
  rw [value?, h, value?]

lemma lookup_congr (h : Entries.find? locals' name = Entries.find? locals name) :
    t.lookup locals' name = t.lookup locals name := by
  rw [lookup, value?_congr h, lookup]

lemma callee_congr (h : Entries.find? locals' name = Entries.find? locals name) :
    t.callee locals' name = t.callee locals name := by
  rw [callee, value?_congr h, callee]

lemma value?_of_find? (h : Entries.find? locals name = some v) :
    t.value? locals name = some v := by
  rw [value?, h, Option.some_or]

lemma lookup_of_find? (h : Entries.find? locals name = some v) :
    t.lookup locals name = .ok v := by
  rw [lookup, value?_of_find? h]

lemma callee_of_find? (h : Entries.find? locals name = some v) :
    t.callee locals name = .error (.notCallable name) := by
  rw [callee, value?_of_find? h]

lemma value?_of_lookup (h : t.lookup locals name = .ok v) : t.value? locals name = some v := by
  unfold lookup at h
  split at h
  · cases h
    assumption
  · split at h <;> cases h

lemma value?_of_callee (h : t.callee locals name = .ok f) : t.value? locals name = none := by
  unfold callee at h
  split at h
  · cases h
  · assumption

lemma value?_of_undefined (h : t.lookup locals name = .error (.undefined name)) :
    t.value? locals name = none := by
  unfold lookup at h
  split at h
  · cases h
  · assumption

lemma localCopy_ok {mid : Locals} : t.localCopy locals name = .ok (v, mid) ↔
    t.lookup locals name = .ok v ∧ mid = Entries.put locals name v := by
  rw [localCopy_eq]
  cases t.lookup locals name with
  | error e => simp [Functor.map, Except.map]
  | ok w =>
    simp only [Functor.map, Except.map, Except.ok.injEq, Prod.mk.injEq]
    exact and_congr_right fun h => by rw [h, eq_comm]

/-! ### Declarations without a value -/

/-- The names after a declaration of one of them without a value. -/
structure Declared (t : Tiers) (name : String) (locals locals' : Locals) : Prop where
  other : ∀ m, m ≠ name →
    t.lookup locals' m = t.lookup locals m ∧ t.callee locals' m = t.callee locals m
  value : ∀ v, t.lookup locals name = .ok v →
    t.lookup locals' name = .ok v ∧ t.callee locals' name = t.callee locals name
  /-- A helper is hidden by the null that the name is bound to. -/
  helper : ∀ f, t.callee locals name = .ok f →
    t.lookup locals' name = .ok .null ∧ t.callee locals' name = .error (.notCallable name)
  nothing : t.lookup locals name = .error (.undefined name) → t.lookup locals' name = .ok .null

lemma declare_of_value (h : t.value? locals name = some v) :
    t.declare locals name none = locals := by
  rw [declare, h]

lemma declare_of_no_value (h : t.value? locals name = none) :
    t.declare locals name none = Entries.put locals name .null := by
  rw [declare, h]

lemma find?_declare_of_ne {m : String} (h : m ≠ name) (v : Option Value) :
    Entries.find? (t.declare locals name v) m = Entries.find? locals m := by
  unfold declare
  split
  · exact Entries.find?_put_of_ne h
  · split
    · rfl
    · exact Entries.find?_put_of_ne h

lemma declared_declare (t : Tiers) (name : String) (locals : Locals) :
    t.Declared name locals (t.declare locals name none) where
  other m hm := by
    have hfind : Entries.find? (t.declare locals name none) m = Entries.find? locals m :=
      find?_declare_of_ne hm none
    exact ⟨lookup_congr hfind, callee_congr hfind⟩
  value v h := by
    rw [declare_of_value (value?_of_lookup h)]
    exact ⟨h, rfl⟩
  helper f h := by
    rw [declare_of_no_value (value?_of_callee h)]
    have hfind := Entries.find?_put_self locals name Value.null
    exact ⟨lookup_of_find? hfind, callee_of_find? hfind⟩
  nothing h := by
    rw [declare_of_no_value (value?_of_undefined h)]
    exact lookup_of_find? (Entries.find?_put_self _ _ _)

end Tiers

namespace Script

/-- **Declarations without a value.** Such a declaration ends normally and writes nothing. It
changes no other name, and none that has a value in any tier. A name that stands for nothing is
null afterwards, and so is the name of a helper, which can no longer be called. -/
theorem exec_declare_none (t : Tiers) (bound : ℕ) (name : String) (frame : Frame) :
    ∃ locals', exec t bound (.declare [(name, none)]) frame =
        some (.ok (.normal, ⟨locals', frame.out⟩)) ∧
      t.Declared name frame.locals locals' :=
  ⟨t.declare frame.locals name none, rfl, t.declared_declare name frame.locals⟩

/-- A helper that is hidden by a declaration of its name. -/
theorem exec_declare_none_helper :
    let h : Helper := fun args => .ok (Helper.argument args 0)
    let t : Tiers := ⟨.null, .empty, [("e", h)]⟩
    exec t 0 (.declare [("e", none)]) ⟨[], ""⟩ = some (.ok (.normal, ⟨[("e", .null)], ""⟩)) ∧
      t.callee [] "e" = .ok h ∧ t.callee [("e", .null)] "e" = .error (.notCallable "e") ∧
      t.callee [("e", .null)] "e" ≠ t.callee [] "e" := by
  intro h t
  refine ⟨rfl, rfl, rfl, fun heq => ?_⟩
  cases heq

end Script

end Stencil
