import Stencil.Proofs.Script.Locals
import Stencil.Proofs.Script.Placement

/-!
What a failed run says about a name.

A run fails for want of a name only if the program uses the name and no tier has it. A local has the
name of a value in an outer tier, or one that the program declares or assigns.
-/

namespace Stencil

namespace Tiers

variable {t : Tiers} {locals : Locals} {name : String} {e : EvalError} {v : Value}

/-- The data or the context has a value of the name. -/
def HasValue (t : Tiers) (name : String) : Prop :=
  t.scopeValue? name ≠ none ∨ Entries.find? t.context.values name ≠ none

/-- The context or the engine has a helper of the name. -/
def HasHelper (t : Tiers) (name : String) : Prop :=
  Entries.find? t.context.helpers name ≠ none ∨ Entries.find? t.api name ≠ none

lemma value?_ne_none_iff : t.value? locals name ≠ none ↔
    Entries.find? locals name ≠ none ∨ t.HasValue name := by
  simp only [value?, HasValue, ne_eq, Option.or_eq_none_iff, not_and_or]

lemma helper?_ne_none_iff : t.helper? name ≠ none ↔ t.HasHelper name := by
  simp only [helper?, HasHelper, ne_eq, Option.or_eq_none_iff, not_and_or]

/-- No value can be had for a name that has none, nor from its helper. -/
lemma lookup_error (h : t.lookup locals name = .error e) : ¬t.HasValue name ∧
    (e = .undefined name ∧ ¬t.HasHelper name ∨ e = .helperAsValue name ∧ t.HasHelper name) := by
  unfold lookup at h
  split at h
  · cases h
  · rename_i hvalue
    have hnone : ¬t.HasValue name := fun hv => value?_ne_none_iff.mpr (.inr hv) hvalue
    split at h <;> cases h
    · rename_i f hhelper
      exact ⟨hnone, .inr ⟨rfl, helper?_ne_none_iff.mp (by simp [hhelper])⟩⟩
    · rename_i hhelper
      exact ⟨hnone, .inl ⟨rfl, fun hh => helper?_ne_none_iff.mpr hh hhelper⟩⟩

/-- A name cannot be called if it stands for nothing, or for a value. -/
lemma callee_error (h : t.callee locals name = .error e) :
    e = .undefined name ∧ ¬t.HasValue name ∧ ¬t.HasHelper name ∨
      e = .notCallable name ∧ (Entries.find? locals name ≠ none ∨ t.HasValue name) := by
  unfold callee at h
  split at h
  · rename_i v hvalue
    cases h
    exact .inr ⟨rfl, value?_ne_none_iff.mp (by simp [hvalue])⟩
  · rename_i hvalue
    split at h <;> cases h
    rename_i hhelper
    exact .inl ⟨rfl, fun hv => value?_ne_none_iff.mpr (.inr hv) hvalue,
      fun hh => helper?_ne_none_iff.mpr hh hhelper⟩

end Tiers

namespace Script

open Eval

/-! ### Names in a program -/

namespace Program

variable (p : Program)

/-- A run of the program may evaluate the expression. -/
def Evaluates (x : Expr) : Prop := ∃ s ∈ p.stmts, ∃ e ∈ s.exprs, e.Evaluates x

/-- The name is used as a value. -/
def Uses (name : String) : Prop := p.Evaluates (.ident name)

/-- The name is called. -/
def Calls (name : String) : Prop := ∃ args, p.Evaluates (.call name args)

/-- An assignment or an update has the target. -/
def Writes (target : Expr) : Prop := ∃ x, p.Evaluates x ∧ x.target? = some target

/-- The name is the variable of a target that goes on with members or indices. -/
def WritesInto (name : String) : Prop :=
  ∃ target, p.Writes target ∧ target.Place ∧ target ≠ .ident name ∧ target.root = name

/-- The name is declared or assigned. -/
def Binds (name : String) : Prop :=
  (∃ s ∈ p.stmts, name ∈ s.declared) ∨ p.Writes (.ident name)

end Program

/-- What an error says about a name is so. -/
def Truthful (tiers : Tiers) (p : Program) : EvalError → Prop
  | .undefined name => (p.Uses name ∨ p.Calls name ∨ p.WritesInto name) ∧
      ¬tiers.HasValue name ∧ ¬tiers.HasHelper name
  | .notCallable name => p.Calls name ∧ (tiers.HasValue name ∨ p.Binds name)
  | .helperAsValue name => (p.Uses name ∨ p.WritesInto name) ∧
      ¬tiers.HasValue name ∧ tiers.HasHelper name
  | .property _ | .helper _ _ => True

/-- Every local has the name of a value in an outer tier, or one that the program binds. -/
def Accounted (tiers : Tiers) (p : Program) (locals : Locals) : Prop :=
  ∀ name, Entries.find? locals name ≠ none → tiers.HasValue name ∨ p.Binds name

variable {tiers : Tiers} {p : Program} {locals : Locals} {name : String} {e : EvalError}

lemma Accounted.put (h : Accounted tiers p locals) (hname : tiers.HasValue name ∨ p.Binds name)
    (v : Value) : Accounted tiers p (Entries.put locals name v) := by
  intro other hother
  by_cases hsame : other = name
  · rw [hsame]
    exact hname
  · rw [Entries.find?_put_of_ne hsame] at hother
    exact h other hother

lemma Accounted.declare (h : Accounted tiers p locals) (hname : p.Binds name) (v : Option Value) :
    Accounted tiers p (tiers.declare locals name v) := by
  unfold Tiers.declare
  split
  · exact h.put (.inr hname) _
  · split
    · exact h
    · exact h.put (.inr hname) _

/-- A name with a value is accounted for, in whatever tier the value is. -/
lemma Accounted.of_lookup {v : Value} (h : Accounted tiers p locals)
    (hlookup : tiers.lookup locals name = .ok v) : tiers.HasValue name ∨ p.Binds name := by
  have hvalue : tiers.value? locals name ≠ none := by simp [Tiers.value?_of_lookup hlookup]
  rcases Tiers.value?_ne_none_iff.mp hvalue with hlocal | houter
  · exact h name hlocal
  · exact .inl houter

lemma truthful_lookup (hname : p.Uses name ∨ p.WritesInto name)
    (h : tiers.lookup locals name = .error e) : Truthful tiers p e := by
  obtain ⟨hvalue, ⟨rfl, hhelper⟩ | ⟨rfl, hhelper⟩⟩ := Tiers.lookup_error h
  · exact ⟨hname.imp_right .inr, hvalue, hhelper⟩
  · exact ⟨hname, hvalue, hhelper⟩

lemma Accounted.truthful_callee (haccounted : Accounted tiers p locals) (hname : p.Calls name)
    (h : tiers.callee locals name = .error e) : Truthful tiers p e := by
  rcases Tiers.callee_error h with ⟨rfl, hvalue, hhelper⟩ | ⟨rfl, hlocal | hvalue⟩
  · exact ⟨.inr (.inl hname), hvalue, hhelper⟩
  · exact ⟨hname, haccounted name hlocal⟩
  · exact ⟨hname, .inl hvalue⟩

/-! ### Runs -/

/-- A variable is bound by a write to it. A write into its value copies it from an outer tier, and
fails for want of the name if there is no value. -/
lemma keeps_write {target : Expr} (hwrites : p.Writes target) (hplace : target.Place)
    {path : List String} (hpath : path = [] ↔ target = .ident target.root) (v : Value) :
    (store tiers target.root path v).Keeps (Accounted tiers p) (Truthful tiers p) := by
  cases path with
  | nil =>
    have hbinds : p.Binds target.root := .inr (hpath.mp rfl ▸ hwrites)
    exact keeps_modify fun locals h => h.put (.inr hbinds) v
  | cons key keys =>
    have hne : target ≠ .ident target.root := fun h => by simpa using hpath.mpr h
    have hinto : p.WritesInto target.root := ⟨target, hwrites, hplace, hne, rfl⟩
    refine keeps_get fun locals h => ?_
    rw [Tiers.localCopy_eq]
    rcases hlookup : tiers.lookup locals target.root with e | old
    · exact keeps_throw (truthful_lookup (.inr hinto) hlookup)
    · have hnext (new : Value) : Accounted tiers p
          (Entries.put (Entries.put locals target.root old) target.root new) :=
        (h.put (h.of_lookup hlookup) old).put (h.of_lookup hlookup) new
      change (ofProperty (old.setPath key keys v) >>= fun new =>
        set (Entries.put (Entries.put locals target.root old) target.root new) : Eval Unit).Keeps
          (Accounted tiers p) (Truthful tiers p)
      exact (keeps_ofProperty fun _ _ => trivial).bind fun new => keeps_set (hnext new)

/-- What a program evaluates accounts for the locals that it makes, and is truthful when it fails. -/
lemma Program.Evaluates.keeps {x : Expr} (h : p.Evaluates x) :
    x.Keeps tiers (Accounted tiers p) (Truthful tiers p) where
  lookup name hx locals _ e he := by
    subst hx
    exact truthful_lookup (.inl h) he
  callee name args hx locals haccounted e he := by
    subst hx
    exact haccounted.truthful_callee ⟨args, h⟩ he
  helper _ _ _ _ := trivial
  property _ _ := trivial
  place _ _ := .inr trivial
  write _ ht hplace _ hpath v := keeps_write ⟨x, h, ht⟩ hplace hpath v

lemma truthful_run {bound : ℕ} (h : run tiers bound p = some (.error e)) : Truthful tiers p e := by
  have hstmts : ∀ s ∈ p.stmts, s.Keeps tiers (Accounted tiers p) (Truthful tiers p) := fun s hs =>
    { exprs := fun whole hwhole => eval_keeps whole fun x hx =>
        Program.Evaluates.keeps ⟨s, hs, whole, hwhole, hx⟩
      declared := fun name v hname locals hlocals => by
        have hbinds : p.Binds name := .inl ⟨s, hs, hname.mem_declared⟩
        exact hlocals.declare hbinds v }
  exact run_error hstmts (fun name hname => absurd rfl hname) h

/-- **Errors about names are truthful.** A name that is reported as undefined is used, called or
written into by the program, and neither the data, the context nor the engine has anything of that
name. A name that cannot be called is called, and has a value in the data or the context or is
declared or assigned by the program. A helper that is reported as used for a value is a helper and
has no such value, and the program uses its name as a value or writes into it. -/
theorem run_naming (tiers : Tiers) (bound : ℕ) (p : Program) (name : String) :
    (run tiers bound p = some (.error (.undefined name)) →
      (p.Uses name ∨ p.Calls name ∨ p.WritesInto name) ∧
        ¬tiers.HasValue name ∧ ¬tiers.HasHelper name) ∧
    (run tiers bound p = some (.error (.notCallable name)) →
      p.Calls name ∧ (tiers.HasValue name ∨ p.Binds name)) ∧
    (run tiers bound p = some (.error (.helperAsValue name)) →
      (p.Uses name ∨ p.WritesInto name) ∧ ¬tiers.HasValue name ∧ tiers.HasHelper name) :=
  ⟨truthful_run, truthful_run, truthful_run⟩

/-- Data with a user, and a helper in the context. -/
def userTiers : Tiers :=
  ⟨.obj [("user", .obj [])], ⟨[], [("e", fun args => .ok (Helper.argument args 0))]⟩, []⟩

/-- A loop that fails in its body, a call of a variable, and a helper that is written into. -/
theorem run_naming_user :
    let looping : Program := ⟨[.whileLoop (.ident "user")
      (.block [.expr (.assign .set (.member (.ident "user") "seen") (.ident "today"))])]⟩
    let calling : Program := ⟨[.declare [("f", some (.ident "user"))], .expr (.call "f" [])]⟩
    let writing : Program :=
      ⟨[.expr (.assign .set (.member (.ident "e") "count") (.literal (.str "1")))]⟩
    (run userTiers 1 looping = some (.error (.undefined "today")) ∧
      (looping.Uses "today" ∨ looping.Calls "today" ∨ looping.WritesInto "today") ∧
      ¬userTiers.HasValue "today" ∧ ¬userTiers.HasHelper "today") ∧
    (run userTiers 1 calling = some (.error (.notCallable "f")) ∧
      calling.Calls "f" ∧ (userTiers.HasValue "f" ∨ calling.Binds "f")) ∧
    (run userTiers 1 writing = some (.error (.helperAsValue "e")) ∧
      (writing.Uses "e" ∨ writing.WritesInto "e") ∧
      ¬userTiers.HasValue "e" ∧ userTiers.HasHelper "e") := by
  intro looping calling writing
  have hlooping : run userTiers 1 looping = some (.error (.undefined "today")) := rfl
  have hcalling : run userTiers 1 calling = some (.error (.notCallable "f")) := rfl
  have hwriting : run userTiers 1 writing = some (.error (.helperAsValue "e")) := rfl
  exact ⟨⟨hlooping, (run_naming userTiers 1 looping "today").1 hlooping⟩,
    ⟨hcalling, (run_naming userTiers 1 calling "f").2.1 hcalling⟩,
    ⟨hwriting, (run_naming userTiers 1 writing "e").2.2 hwriting⟩⟩

end Script

end Stencil
