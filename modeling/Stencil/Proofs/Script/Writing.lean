import Stencil.Proofs.Script.Compound
import Stencil.Proofs.Script.Locals
import Stencil.Proofs.Value.Slots

/-!
Writing to a target and reading it again.

A write changes one slot in each container on the path of the target, and the variable that the
path begins with. Reading goes along the same path, so that it finds the value that was written.
-/

namespace Stencil

namespace Value

variable {old new inner v : Value} {key : String} {keys path : List String}

/-- Each container on a path has one slot changed, the last of them to the value. The slots before
the last one were there already. -/
inductive Rewritten (v : Value) : List String → Value → Value → Prop
  | last {key : String} {old new : Value} : Replaced key v old new ∨ Extended key v old new →
    Rewritten v [key] old new
  | step {key : String} {path : List String} {old new inner inner' : Value} :
    old.getProperty key = .ok inner → Rewritten v path inner inner' →
    Replaced key inner' old new → Rewritten v (key :: path) old new

lemma rewritten_of_setPath (h : old.setPath key keys v = .ok new) :
    Rewritten v (key :: keys) old new := by
  induction keys generalizing key old new with
  | nil => exact .last (changed_of_setProperty h)
  | cons next rest ih =>
    rw [setPath] at h
    obtain ⟨inner, hchild, h⟩ := except_bind_ok.mp h
    obtain ⟨inner', hinner, hset⟩ := except_bind_ok.mp h
    exact .step (getProperty_of_child hchild) (ih hinner) (replaced_of_child hchild hset)

lemma readPath_cons : old.readPath (key :: keys) = (do (← old.getProperty key).readPath keys) := rfl

/-- What is written at the end of a path is read there. -/
lemma Rewritten.readPath (h : Rewritten v path old new) : new.readPath path = .ok v := by
  induction h with
  | last h =>
    rw [readPath_cons]
    rcases h with h | h
    · rw [h.getProperty_self]
      rfl
    · rw [h.getProperty_self]
      rfl
  | step _ _ h ih =>
    rw [readPath_cons, h.getProperty_self]
    exact ih

end Value

namespace Script

open Eval

/-- A target with fixed keys: a variable with steps to members, and to indices that are literals.
The path is that of the keys. -/
inductive Expr.Fixed : Expr → List String → Prop
  | ident (name : String) : Fixed (.ident name) []
  | member {target : Expr} {path : List String} (property : String) : target.Fixed path →
    Fixed (.member target property) (path ++ [property])
  | index {target : Expr} {path : List String} (key : Value) : target.Fixed path →
    Fixed (.index target (.literal key)) (path ++ [key.propertyKey])

/-- Writes a value to where a target leads. -/
def Eval.write (tiers : Tiers) (target : Expr) (v : Value) : Eval Unit := do
  let (root, path) ← place tiers target
  store tiers root path v

variable {tiers : Tiers} {target : Expr} {path : List String} {v : Value} {locals locals' : Locals}
  {root : String}

namespace Expr.Fixed

lemma place (h : target.Fixed path) : target.Place := by
  induction h with
  | ident name => exact .ident name
  | member property _ ih => exact .member property ih
  | index key _ ih => exact .index (.literal key) ih

/-- Fixed keys lead to one place, whatever the locals are. -/
lemma place_eq (h : target.Fixed path) : Script.place tiers target = pure (target.root, path) := by
  induction h with
  | ident name => rfl
  | member property _ ih =>
    rw [Script.place, ih]
    rfl
  | index key _ ih =>
    rw [Script.place, ih]
    rfl

end Expr.Fixed

lemma store_path_ok {key : String} {keys : List String} :
    store tiers root (key :: keys) v locals = .ok ((), locals') ↔
      ∃ old new, tiers.lookup locals root = .ok old ∧ old.setPath key keys v = .ok new ∧
        locals' = Entries.put (Entries.put locals root old) root new := by
  unfold store
  constructor
  · intro h
    obtain ⟨_, _, hget, h⟩ := state_bind_ok.mp h
    cases hget
    obtain ⟨⟨old, mid⟩, _, hlift, h⟩ := state_bind_ok.mp h
    obtain ⟨hlocal, rfl⟩ := lift_ok.mp hlift
    obtain ⟨hlookup, rfl⟩ := Tiers.localCopy_ok.mp hlocal
    obtain ⟨new, _, hnew, h⟩ := state_bind_ok.mp h
    obtain ⟨hset, rfl⟩ := ofProperty_ok.mp hnew
    cases h
    exact ⟨old, new, hlookup, hset, rfl⟩
  · rintro ⟨old, new, hlookup, hset, rfl⟩
    have hlift : (liftM (tiers.localCopy locals root) : Eval (Value × Locals)) locals =
        .ok ((old, Entries.put locals root old), locals) :=
      lift_ok.mpr ⟨Tiers.localCopy_ok.mpr ⟨hlookup, rfl⟩, rfl⟩
    have hnew : ofProperty (old.setPath key keys v) locals = .ok (new, locals) :=
      ofProperty_ok.mpr ⟨hset, rfl⟩
    exact state_bind_ok.mpr ⟨locals, locals, rfl, state_bind_ok.mpr ⟨_, _, hlift,
      state_bind_ok.mpr ⟨new, _, hnew, rfl⟩⟩⟩

lemma store_variable (h : store tiers root [] v locals = .ok ((), locals')) :
    locals' = Entries.put locals root v := by
  cases h
  rfl

lemma store_others (h : store tiers root path v locals = .ok ((), locals')) {name : String}
    (hname : name ≠ root) : Entries.find? locals' name = Entries.find? locals name := by
  cases path with
  | nil =>
    rw [store_variable h, Entries.find?_put_of_ne hname]
  | cons key keys =>
    obtain ⟨old, new, -, -, rfl⟩ := store_path_ok.mp h
    rw [Entries.find?_put_of_ne hname, Entries.find?_put_of_ne hname]

lemma store_slots (h : store tiers root path v locals = .ok ((), locals')) (hpath : path ≠ []) :
    ∃ old new, tiers.lookup locals root = .ok old ∧ Entries.find? locals' root = some new ∧
      Value.Rewritten v path old new := by
  cases path with
  | nil => exact (hpath rfl).elim
  | cons key keys =>
    obtain ⟨old, new, hlookup, hset, rfl⟩ := store_path_ok.mp h
    exact ⟨old, new, hlookup, Entries.find?_put_self _ _ _, Value.rewritten_of_setPath hset⟩

lemma store_reads (h : store tiers root path v locals = .ok ((), locals')) :
    ∃ new, Entries.find? locals' root = some new ∧ new.readPath path = .ok v := by
  by_cases hpath : path = []
  · subst hpath
    rw [store_variable h]
    exact ⟨v, Entries.find?_put_self _ _ _, rfl⟩
  · obtain ⟨old, new, -, hfind, hrewritten⟩ := store_slots h hpath
    exact ⟨new, hfind, hrewritten.readPath⟩

/-- What a write to a target changes. -/
structure Wrote (tiers : Tiers) (target : Expr) (path : List String) (v : Value)
    (locals locals' : Locals) : Prop where
  reads : eval tiers target locals' = .ok (v, locals')
  bindings : ∀ name, name ≠ target.root → Entries.find? locals' name = Entries.find? locals name
  names : ∀ name, name ≠ target.root → tiers.lookup locals' name = tiers.lookup locals name ∧
    tiers.callee locals' name = tiers.callee locals name
  slots : path ≠ [] → ∃ old new, tiers.lookup locals target.root = .ok old ∧
    Entries.find? locals' target.root = some new ∧ Value.Rewritten v path old new

/-- **A write is read back.** Where a write to a target with fixed keys succeeds, the target then
has the value that was written. All names but that of its variable stand for what they did, and
on the path of the target only one slot in each container is changed. -/
theorem eval_write (tiers : Tiers) (target : Expr) (path : List String) (h : target.Fixed path)
    (v : Value) (locals locals' : Locals)
    (hw : write tiers target v locals = .ok ((), locals')) :
    Wrote tiers target path v locals locals' := by
  have hstore : store tiers target.root path v locals = .ok ((), locals') := by
    rw [write, h.place_eq, pure_bind] at hw
    exact hw
  constructor
  case reads =>
    obtain ⟨new, hfind, hread⟩ := store_reads hstore
    have hplace : place tiers target locals' = .ok ((target.root, path), locals') := by
      rw [h.place_eq]
      rfl
    exact (eval_place h.place).mpr
      ⟨target.root, path, new, hplace, Tiers.lookup_of_find? hfind, hread⟩
  case bindings =>
    exact fun name hname => store_others hstore hname
  case names =>
    intro name hname
    have hfind := store_others hstore hname
    exact ⟨Tiers.lookup_congr hfind, Tiers.callee_congr hfind⟩
  case slots =>
    exact store_slots hstore

/-- A page of the data with two rows, of which one has no title. -/
def pageTiers : Tiers :=
  ⟨.obj [("page", .obj [("rows", .arr [.obj [("id", .int 7)], .null]), ("n", .int 2)])], .empty, []⟩

/-- A title for the first row, which is copied from the data with all that is around it. -/
theorem eval_write_title :
    let target : Expr :=
      .member (.index (.member (.ident "page") "rows") (.literal (.int 0))) "title"
    let titled : Value := .obj [("rows", .arr [.obj [("id", .int 7), ("title", .str "A")], .null]),
      ("n", .int 2)]
    target.Fixed ["rows", "0", "title"] ∧
      write pageTiers target (.str "A") [] = .ok ((), [("page", titled)]) ∧
      Wrote pageTiers target ["rows", "0", "title"] (.str "A") [] [("page", titled)] := by
  intro target titled
  have hfixed : target.Fixed ["rows", "0", "title"] :=
    .member "title" (.index (.int 0) (.member "rows" (.ident "page")))
  have hwrite : write pageTiers target (.str "A") [] = .ok ((), [("page", titled)]) := rfl
  exact ⟨hfixed, hwrite, eval_write pageTiers target _ hfixed (.str "A") [] _ hwrite⟩

end Script

end Stencil
