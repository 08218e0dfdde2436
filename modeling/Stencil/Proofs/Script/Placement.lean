import Stencil.Proofs.Script.Formed
import Stencil.Proofs.Script.Invariant

/-!
Branches that no run of a read program takes.

Jumps stand in loops only, writes go to places only, and a loop begins with a declaration or an
expression. The reader sees to that, and a run relies on it.
-/

namespace Stencil.Script

open Grammar

/-! ### Targets of writes -/

/-- A variable with steps to members and indices after it. -/
inductive Expr.Place : Expr → Prop
  | ident (name : String) : Place (.ident name)
  | member {target : Expr} (property : String) : target.Place → Place (.member target property)
  | index {target : Expr} (key : Expr) : target.Place → Place (.index target key)

lemma Expr.place_of_isAssignable : ∀ {e : Expr}, e.isAssignable = true → e.Place
  | .ident name, _ => .ident name
  | .member target property, h => .member property (place_of_isAssignable (e := target) h)
  | .index target key, h => .index key (place_of_isAssignable (e := target) h)

/-- The variable that a place begins with. -/
def Expr.root : Expr → String
  | .ident name => name
  | .member target _ | .index target _ => target.root
  | _ => ""

/-- What an expression itself writes to. -/
def Expr.target? : Expr → Option Expr
  | .assign _ target _ | .update _ _ target => some target
  | _ => none

/-- The keys of a place, in their order. -/
def Expr.keys : Expr → List Expr
  | .member target _ => target.keys
  | .index target key => target.keys ++ [key]
  | _ => []

/-- The expressions that an expression may evaluate itself. A plain assignment does not evaluate its
target, only the keys in it. -/
def Expr.operands : Expr → List Expr
  | .assign .set target value => value :: target.keys
  | e => e.children

/-- To evaluate the first expression it may be necessary to evaluate the second. -/
inductive Expr.Evaluates : Expr → Expr → Prop
  | self (e : Expr) : Evaluates e e
  | operand {e c x : Expr} : c ∈ e.operands → Evaluates c x → Evaluates e x

/-- Every write in an expression goes to a place. -/
def Expr.WritesPlaces (e : Expr) : Prop := ∀ x ∈ e.parts, ∀ target ∈ x.target?, target.Place

namespace Expr

variable {e : Expr}

lemma writesPlaces_iff :
    e.WritesPlaces ↔ (∀ target ∈ e.target?, target.Place) ∧ ∀ c ∈ e.children, c.WritesPlaces :=
  forall_mem_parts

lemma WritesPlaces.child {c : Expr} (h : e.WritesPlaces) (hc : c ∈ e.children) :
    c.WritesPlaces :=
  (writesPlaces_iff.mp h).2 c hc

lemma mem_children_of_target {target : Expr} (h : e.target? = some target) :
    target ∈ e.children := by
  cases e <;> cases h <;> simp [children]

lemma mem_parts_of_child {c x : Expr} (hc : c ∈ e.children) (hx : x ∈ c.parts) : x ∈ e.parts := by
  rw [parts_eq]
  exact List.mem_cons_of_mem _ (List.mem_flatMap_of_mem hc hx)

lemma mem_parts_of_key {k x : Expr} : ∀ {e : Expr}, k ∈ e.keys → x ∈ k.parts → x ∈ e.parts
  | .member target _, hk, hx =>
    mem_parts_of_child (by simp [children]) (mem_parts_of_key (e := target) hk hx)
  | .index target key, hk, hx => by
    rcases List.mem_append.mp hk with hk | hk
    · exact mem_parts_of_child (by simp [children]) (mem_parts_of_key (e := target) hk hx)
    · obtain rfl := List.mem_singleton.mp hk
      exact mem_parts_of_child (by simp [children]) hx

lemma Evaluates.of_key {k x : Expr} : ∀ {e : Expr}, k ∈ e.keys → k.Evaluates x → e.Evaluates x
  | .member target _, hk, hx => .operand (by simp [operands, children]) (of_key (e := target) hk hx)
  | .index target key, hk, hx => by
    rcases List.mem_append.mp hk with hk | hk
    · exact .operand (by simp [operands, children]) (of_key (e := target) hk hx)
    · obtain rfl := List.mem_singleton.mp hk
      exact .operand (by simp [operands, children]) hx

/-- Both to read a target and to find its place, its keys are evaluated. -/
lemma Evaluates.of_target_key {op : AssignOp} {target value k x : Expr} (hk : k ∈ target.keys)
    (hx : k.Evaluates x) : (assign op target value).Evaluates x := by
  cases op with
  | set => exact .operand (List.mem_cons_of_mem _ hk) hx
  | add | sub => exact .operand (by simp [operands, children]) (hx.of_key hk)

/-- Only what stands in an expression is evaluated. -/
lemma Evaluates.mem_parts {x : Expr} (h : e.Evaluates x) : x ∈ e.parts := by
  induction h with
  | self e => exact (forall_mem_parts.mp fun x hx => hx).1
  | @operand e c x hc _ ih =>
    by_cases hset : ∃ target value, e = .assign .set target value
    · obtain ⟨target, value, rfl⟩ := hset
      rcases List.mem_cons.mp hc with rfl | hkey
      · exact mem_parts_of_child (by simp [children]) ih
      · exact mem_parts_of_child (by simp [children]) (mem_parts_of_key hkey ih)
    · have hoperands : e.operands = e.children := by
        unfold operands
        split
        · exact absurd ⟨_, _, rfl⟩ hset
        · rfl
      exact mem_parts_of_child (hoperands ▸ hc) ih

lemma WritesPlaces.of_children (htarget : e.target? = none)
    (h : ∀ c ∈ e.children, c.WritesPlaces) : e.WritesPlaces :=
  writesPlaces_iff.mpr ⟨by simp [htarget], h⟩

end Expr

namespace Grammar

lemma Joins.children {k : ℕ} {p : Punct} {join : Expr → Expr → Expr} (h : Joins k p join)
    (left right : Expr) : (join left right).children = [left, right] := by
  cases h <;> rfl

lemma Joins.target? {k : ℕ} {p : Punct} {join : Expr → Expr → Expr} (h : Joins k p join)
    (left right : Expr) : (join left right).target? = none := by
  cases h <;> rfl

/-- The grammar has no phrase for a write to anything but a place. -/
lemma Derives.writesPlaces {n : ℕ} {p : Phrase} {ts : List TokenKind} {e : Expr}
    (h : Derives n p ts e) : e.WritesPlaces := by
  induction h with
  | single _ ih | unassigned _ ih | unconditional _ ih | tighter _ _ ih | unjoined _ ih
  | bare _ ih | operand _ ih | unstepped _ ih | group _ ih => exact ih
  | sequence _ _ _ ih ihs =>
    exact .of_children rfl (List.forall_mem_cons.mpr ⟨ih, List.forall_mem_map.mpr ihs⟩)
  | assign op _ ha _ iht ihv =>
    refine Expr.writesPlaces_iff.mpr ⟨?_, by simp [Expr.children, iht, ihv]⟩
    rintro _ ⟨⟩
    exact Expr.place_of_isAssignable ha
  | conditional _ _ _ iht ihy ihn =>
    exact .of_children rfl (by simp [Expr.children, iht, ihy, ihn])
  | joined hj _ _ ihl ihr =>
    exact .of_children (hj.target? _ _) (by simp [hj.children, ihl, ihr])
  | prefixed op _ ih => exact .of_children rfl (List.forall_mem_singleton.mpr ih)
  | updateBefore op _ ha ih | updateAfter op _ ha ih =>
    refine Expr.writesPlaces_iff.mpr ⟨?_, List.forall_mem_singleton.mpr ih⟩
    rintro _ ⟨⟩
    exact Expr.place_of_isAssignable ha
  | member name _ ih => exact .of_children rfl (List.forall_mem_singleton.mpr ih)
  | index _ _ ih ihk => exact .of_children rfl (by simp [Expr.children, ih, ihk])
  | call _ _ _ _ ihs => exact .of_children rfl (List.forall_mem_map.mpr ihs)
  | number | text | constant | ident => exact .of_children rfl (by simp [Expr.children])
  | array _ _ ihs => exact .of_children rfl (List.forall_mem_map.mpr ihs)
  | object _ _ _ ihs => exact .of_children rfl (by simpa [Expr.children] using ihs)

end Grammar

/-! ### Evaluations -/

/-- The failure of a write to what is not a place. -/
def unplaced : EvalError := .property (.notAssignable "" "an expression")

lemma typeName_ne_expression (v : Value) : v.typeName ≠ "an expression" := by
  cases v <;> simp [Value.typeName]

/-- A failure to read or to write a property of a value that there is. -/
def OfValue (e : PropertyError) : Prop := e ≠ .notAssignable "" "an expression"

lemma getProperty_ofValue {v : Value} {property : String} {e : PropertyError}
    (h : v.getProperty property = .error e) : OfValue e := by
  unfold Value.getProperty at h
  split at h
  · cases h
    simp [OfValue]
  · cases h
  · split_ifs at h
  · split_ifs at h
  · cases h
  · cases h

lemma child_ofValue {v : Value} {key : String} {e : PropertyError}
    (h : v.child key = .error e) : OfValue e := by
  have hpresent {o : Option Value} (h : Value.child.present key o = .error e) : OfValue e := by
    unfold Value.child.present at h
    split at h
    · cases h
      simp [OfValue]
    · cases h
      simp [OfValue]
    · cases h
  unfold Value.child at h
  split at h
  · exact hpresent h
  · exact hpresent h
  · cases h
    simp [OfValue, typeName_ne_expression]

lemma setProperty_ofValue {v new : Value} {key : String} {e : PropertyError}
    (h : v.setProperty key new = .error e) : OfValue e := by
  unfold Value.setProperty at h
  split at h
  · cases h
    simp [OfValue]
  · cases h
  · split at h
    · cases h
      simp [OfValue]
    · split_ifs at h
      cases h
      simp [OfValue]
  · cases h
    simp [OfValue, typeName_ne_expression]

lemma setPath_ofValue {keys : List String} {v new : Value} {key : String} {e : PropertyError}
    (h : v.setPath key keys new = .error e) : OfValue e := by
  induction keys generalizing v key e with
  | nil => exact setProperty_ofValue h
  | cons next rest ih =>
    rw [Value.setPath] at h
    rcases except_bind_error.mp h with h | ⟨inner, -, h⟩
    · exact child_ofValue h
    rcases except_bind_error.mp h with h | ⟨inner', -, h⟩
    · exact ih h
    · exact setProperty_ofValue h

section Keeps

open Eval

variable {tiers : Tiers} {I : Locals → Prop} {E : EvalError → Prop}

lemma place_root_eq {e : Expr} (h : e.Place) {locals mid : Locals} {root : String}
    {path : List String} (hplace : place tiers e locals = .ok ((root, path), mid)) :
    root = e.root := by
  induction h generalizing mid path with
  | ident name =>
    cases hplace
    rfl
  | member property _ ih =>
    rw [place, state_bind_ok] at hplace
    obtain ⟨⟨_, _⟩, _, hp, hplace⟩ := hplace
    cases hplace
    exact ih hp
  | index key _ ih =>
    rw [place, state_bind_ok] at hplace
    obtain ⟨⟨_, _⟩, _, hp, hplace⟩ := hplace
    obtain ⟨_, _, _, hplace⟩ := state_bind_ok.mp hplace
    cases hplace
    exact ih hp

/-- Only a place leads anywhere. -/
lemma place_of_ok : ∀ (e : Expr) {locals mid : Locals} {p : String × List String},
    place tiers e locals = .ok (p, mid) → e.Place
  | .ident name, _, _, _, _ => .ident name
  | .member target property, _, _, _, h => by
    rw [place, state_bind_ok] at h
    obtain ⟨_, _, hp, -⟩ := h
    exact .member property (place_of_ok target hp)
  | .index target key, _, _, _, h => by
    rw [place, state_bind_ok] at h
    obtain ⟨_, _, hp, -⟩ := h
    exact .index key (place_of_ok target hp)
  | .literal _, _, _, _, h | .array _, _, _, _, h | .object _, _, _, _, h | .call _ _, _, _, _, h
  | .unary _ _, _, _, _, h | .binary _ _ _, _, _, _, h | .logical _ _ _, _, _, _, h
  | .conditional _ _ _, _, _, _, h | .assign _ _ _, _, _, _, h | .update _ _ _, _, _, _, h
  | .sequence _, _, _, _, h => by
    simp only [place] at h
    cases h

/-- A place without keys is a variable, and no other place is. -/
lemma place_nil_iff {e : Expr} {locals mid : Locals} {root : String} {path : List String}
    (h : place tiers e locals = .ok ((root, path), mid)) : path = [] ↔ e = .ident e.root := by
  cases place_of_ok e h with
  | ident name =>
    cases h
    simp [Expr.root]
  | member property _ =>
    rw [place, state_bind_ok] at h
    obtain ⟨⟨_, front⟩, _, -, hlast⟩ := h
    have hpath : front ++ [property] = path := congrArg (·.1.2) (Except.ok.inj hlast)
    simp [← hpath]
  | index key _ =>
    rw [place, state_bind_ok] at h
    obtain ⟨⟨_, front⟩, _, -, h⟩ := h
    obtain ⟨v, _, -, hlast⟩ := state_bind_ok.mp h
    have hpath : front ++ [v.propertyKey] = path := congrArg (·.1.2) (Except.ok.inj hlast)
    simp [← hpath]

/-- What an expression does by itself, whatever its parts do, keeps the invariant and fails only
with errors that are allowed. -/
structure Expr.Keeps (tiers : Tiers) (I : Locals → Prop) (E : EvalError → Prop) (x : Expr) :
    Prop where
  lookup : ∀ name, x = .ident name → ∀ locals, I locals →
    ∀ e, tiers.lookup locals name = .error e → E e
  callee : ∀ name args, x = .call name args → ∀ locals, I locals →
    ∀ e, tiers.callee locals name = .error e → E e
  helper : ∀ name args, x = .call name args → ∀ message, E (.helper name message)
  property : ∀ e, OfValue e → E (.property e)
  place : ∀ target ∈ x.target?, target.Place ∨ E unplaced
  write : ∀ target ∈ x.target?, target.Place → ∀ path, (path = [] ↔ target = .ident target.root) →
    ∀ v, (store tiers target.root path v).Keeps I E

namespace Expr.Keeps

variable {x : Expr} {α : Type}

lemma ofProperty (h : x.Keeps tiers I E) {r : Except PropertyError α}
    (hr : ∀ e, r = .error e → OfValue e) : (Eval.ofProperty r).Keeps I E :=
  keeps_ofProperty fun e he => h.property e (hr e he)

/-- A write goes to the variable of its target. -/
lemma store (h : x.Keeps tiers I E) {target : Expr} (ht : x.target? = some target)
    (hplace : (Script.place tiers target).Keeps I E) (v : Value) {f : Unit → Eval α}
    (hf : ∀ u, (f u).Keeps I E) :
    (do let (root, path) ← Script.place tiers target; let u ← Eval.store tiers root path v; f u :
      Eval α).Keeps I E := by
  refine hplace.bind_ok fun locals p mid hp => ?_
  obtain ⟨root, path⟩ := p
  have htarget := place_of_ok target hp
  dsimp only
  rw [place_root_eq htarget hp]
  exact (h.write target ht htarget path (place_nil_iff hp) v).bind hf

end Expr.Keeps

/-- Every expression that the evaluation may come to keeps what it keeps by itself. -/
def Expr.KeepsThroughout (tiers : Tiers) (I : Locals → Prop) (E : EvalError → Prop) (e : Expr) :
    Prop :=
  ∀ x, e.Evaluates x → x.Keeps tiers I E

namespace Expr.KeepsThroughout

variable {e : Expr}

lemma own (h : e.KeepsThroughout tiers I E) : e.Keeps tiers I E := h e (.self e)

lemma operand {c : Expr} (h : e.KeepsThroughout tiers I E) (hc : c ∈ e.operands) :
    c.KeepsThroughout tiers I E :=
  fun x hx => h x (.operand hc hx)

lemma key {k : Expr} (h : e.KeepsThroughout tiers I E) (hk : k ∈ e.keys) :
    k.KeepsThroughout tiers I E :=
  fun x hx => h x (.of_key hk hx)

end Expr.KeepsThroughout

mutual

/-- An evaluation keeps what the expressions that it may evaluate keep by themselves. -/
theorem eval_keeps : ∀ e : Expr, e.KeepsThroughout tiers I E → (eval tiers e).Keeps I E
  | .literal v, _ => keeps_pure
  | .ident name, h => keeps_get fun locals hI => keeps_lift (h.own.lookup name rfl locals hI)
  | .array items, h => by
    have hitems := evalList_keeps items fun _ he => h.operand he
    exact hitems.bind fun _ => keeps_pure
  | .object entries, h => by
    have hentries := evalEntries_keeps entries fun _ he => h.operand (List.mem_map_of_mem he)
    exact hentries.bind fun _ => keeps_pure
  | .member target property, h => by
    have htarget := eval_keeps target (h.operand (.head _))
    exact htarget.bind fun _ => h.own.ofProperty fun _ => getProperty_ofValue
  | .index target key, h => by
    have htarget := eval_keeps target (h.operand (.head _))
    have hkey := eval_keeps key (h.operand (.tail _ (.head _)))
    exact htarget.bind fun _ => hkey.bind fun _ => h.own.ofProperty fun _ => getProperty_ofValue
  | .call name args, h => by
    have hargs := evalList_keeps args fun _ he => h.operand he
    refine hargs.bind fun vs => keeps_get fun locals hI =>
      Keeps.bind (keeps_lift (h.own.callee name args rfl locals hI)) fun f => ?_
    split
    · exact keeps_pure
    · exact keeps_throw (h.own.helper name args rfl _)
  | .unary op operand, h => by
    have hoperand := eval_keeps operand (h.operand (.head _))
    exact hoperand.bind fun _ => keeps_pure
  | .binary op left right, h => by
    have hleft := eval_keeps left (h.operand (.head _))
    have hright := eval_keeps right (h.operand (.tail _ (.head _)))
    exact hleft.bind fun _ => hright.bind fun _ => keeps_pure
  | .logical op left right, h => by
    have hleft := eval_keeps left (h.operand (.head _))
    have hright := eval_keeps right (h.operand (.tail _ (.head _)))
    exact hleft.bind fun _ => .ite keeps_pure hright
  | .conditional test yes no, h => by
    have htest := eval_keeps test (h.operand (.head _))
    have hyes := eval_keeps yes (h.operand (.tail _ (.head _)))
    have hno := eval_keeps no (h.operand (.tail _ (.tail _ (.head _))))
    exact htest.bind fun _ => .ite hyes hno
  | .assign op target value, h => by
    have hplace := place_keeps target (fun k hk x hx => h x (.of_target_key hk hx))
      (h.own.place target rfl)
    have hstore (v : Value) := h.own.store (f := fun _ => pure v) rfl hplace v fun _ => keeps_pure
    cases op with
    | set => exact (eval_keeps value (h.operand (.head _))).bind hstore
    | add | sub =>
      have htarget := eval_keeps target (h.operand (.head _))
      have hvalue := eval_keeps value (h.operand (.tail _ (.head _)))
      exact hvalue.bind fun _ => htarget.map.bind hstore
  | .update op before target, h => by
    have hall := h.operand (.head _)
    have htarget := eval_keeps target hall
    have hplace := place_keeps target (fun _ hk => hall.key hk) (h.own.place target rfl)
    exact htarget.bind fun _ => h.own.store rfl hplace _ fun _ => keeps_pure
  | .sequence items, h => by
    have hitems := evalList_keeps items fun _ he => h.operand he
    exact hitems.bind fun _ => keeps_pure

theorem place_keeps : ∀ e : Expr, (∀ k ∈ e.keys, k.KeepsThroughout tiers I E) →
    e.Place ∨ E unplaced → (place tiers e).Keeps I E
  | .ident name, _, _ => keeps_pure
  | .member target property, h, hp => by
    have hp : target.Place ∨ E unplaced := hp.imp_left fun | .member _ hp => hp
    exact (place_keeps target h hp).bind fun _ => keeps_pure
  | .index target key, h, hp => by
    have hkey := eval_keeps key (h key (List.mem_append_right _ (List.mem_singleton_self key)))
    have hp : target.Place ∨ E unplaced := hp.imp_left fun | .index _ hp => hp
    have htarget := place_keeps target (fun k hk => h k (List.mem_append_left _ hk)) hp
    exact htarget.bind fun _ => hkey.bind fun _ => keeps_pure
  | .literal _, _, hp | .array _, _, hp | .object _, _, hp | .call _ _, _, hp | .unary _ _, _, hp
  | .binary _ _ _, _, hp | .logical _ _ _, _, hp | .conditional _ _ _, _, hp
  | .assign _ _ _, _, hp | .update _ _ _, _, hp | .sequence _, _, hp => by
    simp only [place]
    exact keeps_throw (hp.resolve_left nofun)

theorem evalList_keeps : ∀ es : List Expr, (∀ e ∈ es, e.KeepsThroughout tiers I E) →
    (evalList tiers es).Keeps I E
  | [], _ => keeps_pure
  | e :: es, h => by
    obtain ⟨he, hes⟩ := List.forall_mem_cons.mp h
    exact (eval_keeps e he).bind fun _ => (evalList_keeps es hes).bind fun _ => keeps_pure

theorem evalEntries_keeps : ∀ es : List (String × Expr),
    (∀ e ∈ es, e.2.KeepsThroughout tiers I E) → (evalEntries tiers es).Keeps I E
  | [], _ => keeps_pure
  | (_, e) :: es, h => by
    obtain ⟨he, hes⟩ := List.forall_mem_cons.mp h
    exact (eval_keeps e he).bind fun _ => (evalEntries_keeps es hes).bind fun _ => keeps_pure

end

end Keeps

/-! ### Writes that miss no place -/

/-- An evaluation never fails for want of a place. -/
def Placed {α : Type} (x : Eval α) : Prop := x.Keeps (fun _ => True) (· ≠ unplaced)

section Placed

open Eval

variable {tiers : Tiers}

lemma placed_ofProperty {α : Type} {x : Except PropertyError α}
    (h : ∀ e, x = .error e → OfValue e) : Placed (ofProperty x) :=
  keeps_ofProperty fun e he => fun heq => h e he (EvalError.property.inj heq)

lemma lookup_ne_unplaced {locals : Locals} {name : String} {e : EvalError}
    (h : tiers.lookup locals name = .error e) : e ≠ unplaced := by
  unfold Tiers.lookup at h
  split at h
  · cases h
  · split at h
    · cases h
      simp [unplaced]
    · cases h
      simp [unplaced]

lemma callee_ne_unplaced {locals : Locals} {name : String} {e : EvalError}
    (h : tiers.callee locals name = .error e) : e ≠ unplaced := by
  unfold Tiers.callee at h
  split at h
  · cases h
    simp [unplaced]
  · split at h
    · cases h
    · cases h
      simp [unplaced]

lemma localCopy_ne_unplaced {locals : Locals} {name : String} {e : EvalError}
    (h : tiers.localCopy locals name = .error e) : e ≠ unplaced := by
  rw [Tiers.localCopy_eq] at h
  rcases hl : tiers.lookup locals name with e' | v
  · rw [hl] at h
    cases h
    exact lookup_ne_unplaced hl
  · rw [hl] at h
    cases h

lemma placed_store {root : String} {path : List String} {v : Value} :
    Placed (store tiers root path v) := by
  cases path with
  | nil => exact keeps_modify fun _ _ => trivial
  | cons key keys =>
    refine keeps_get fun locals _ => Keeps.bind (keeps_lift fun e he => ?_) fun p => ?_
    · exact localCopy_ne_unplaced he
    · exact Keeps.bind (placed_ofProperty fun _ => setPath_ofValue) fun _ => keeps_set trivial

/-- An expression that writes to places only never misses one. -/
lemma Expr.WritesPlaces.keeps {e : Expr} (h : e.WritesPlaces) :
    ∀ x ∈ e.parts, x.Keeps tiers (fun _ => True) (· ≠ unplaced) := fun x hx =>
  { lookup := fun _ _ _ _ _ => lookup_ne_unplaced
    callee := fun _ _ _ _ _ _ => callee_ne_unplaced
    helper := fun _ _ _ _ => by simp [unplaced]
    property := fun e he heq => he (EvalError.property.inj heq)
    place := fun target ht => .inl (h x hx target ht)
    write := fun _ _ _ _ _ _ => placed_store }

theorem eval_placed (e : Expr) (h : e.WritesPlaces) : Placed (eval tiers e) :=
  eval_keeps e fun x hx => h.keeps x hx.mem_parts

theorem place_placed (e : Expr) (h : e.WritesPlaces) (hp : e.Place) : Placed (place tiers e) :=
  place_keeps e (fun _ hk x hx => h.keeps x (Expr.mem_parts_of_key hk hx.mem_parts)) (.inl hp)

end Placed

/-! ### Statements -/

namespace Stmt

variable {n : ℕ} {inLoop : Bool} {s : Stmt}

lemma IsClause.jumpsOut (h : s.IsClause) : s.jumpsOut = false := by
  rcases h with ⟨_, rfl⟩ | ⟨_, rfl⟩ <;> rfl

/-- Outside of a loop no statement jumps. -/
lemma Formed.of_jumpsOut (h : Formed n inLoop s) : s.jumpsOut = true → inLoop = true := by
  induction h with
  | output _ | empty | whileLoop _ _ => simp [jumpsOut]
  | simple hs => simp [hs.isClause.jumpsOut]
  | block _ ih =>
    intro hj
    rw [jumpsOut, jumpsOutAny_eq, List.any_eq_true] at hj
    obtain ⟨s, hs, hj⟩ := hj
    exact ih s hs hj
  | branch _ _ _ ihyes ihno =>
    intro hj
    rw [jumpsOut, jumpsOutOption_eq, Bool.or_eq_true] at hj
    rcases hj with hj | hj
    · exact ihyes hj
    · obtain ⟨s, hs, hj⟩ := (Option.any_eq_true _ _).mp hj
      exact ihno s hs hj
  | forLoop hinit _ _ _ _ =>
    -- the jumps of the body are its own, and the first clause has none
    intro hj
    rw [jumpsOut, jumpsOutOption_eq] at hj
    obtain ⟨s, hs, hj⟩ := (Option.any_eq_true _ _).mp hj
    simp [(hinit s hs).isClause.jumpsOut] at hj
  | leave | resume => exact fun _ => rfl

end Stmt

/-! ### Programs -/

/-- Jumps, writes and first clauses of loops stand only where they may. -/
structure Program.WellPlaced (p : Program) : Prop where
  jumps : ∀ s ∈ p.body, s.jumpsOut = false
  targets : ∀ e ∈ p.exprs, ∀ target ∈ e.target?, target.Place
  inits : ∀ s ∈ p.stmts, ∀ init ∈ s.init?, init.IsClause

variable {instructions : List Instruction} {p : Program}

lemma writesPlaces_of_mem_stmts (h : parseProgram instructions = .ok p) :
    ∀ s ∈ p.stmts, ∀ e ∈ s.exprs, e.WritesPlaces := by
  intro s hs e he
  obtain ⟨n, hn, b, hf⟩ := formed_of_mem_stmts h s hs
  obtain ⟨ts, hd⟩ := hf.derived hn e he
  exact hd.writesPlaces

lemma wellPlaced_of_parseProgram (h : parseProgram instructions = .ok p) : p.WellPlaced where
  jumps s hs := by
    have hf := formed_of_parseProgram h s hs
    exact Bool.eq_false_iff.mpr fun hj => absurd (hf.of_jumpsOut hj) (by simp)
  targets e he := by
    obtain ⟨whole, hwhole, he⟩ := List.mem_flatMap.mp he
    obtain ⟨s, hs, hwhole⟩ := List.mem_flatMap.mp hwhole
    exact writesPlaces_of_mem_stmts h s hs whole hwhole e he
  inits s hs := by
    obtain ⟨n, -, b, hf⟩ := formed_of_mem_stmts h s hs
    exact hf.init

/-! ### Runs -/

variable {tiers : Tiers} {bound : ℕ}

/-- However the run ends well, its flow is the normal one. -/
def Exec.EndsNormally (x : Exec Flow) : Prop :=
  ∀ frame flow frame', x frame = some (.ok (flow, frame')) → flow = .normal

lemma endsNormally_exec {s : Stmt} (h : s.jumpsOut = false) :
    (exec tiers bound s).EndsNormally := by
  -- without an invariant to keep, what is left of `exec_ensures` is how the run ends
  have hkeeps : ∀ x ∈ s.parts, x.Keeps tiers (fun _ => True) fun _ => True := fun _ _ =>
    ⟨fun _ _ => fun _ _ => ⟨fun _ _ _ => trivial, fun _ _ => trivial⟩, fun _ _ _ _ _ => trivial⟩
  intro frame flow frame' hrun
  obtain ⟨-, hends⟩ := (exec_ensures s hkeeps trivial).1 flow frame' hrun
  exact hends.resolve_right (by simp [h])

lemma execTop_eq_discard {ss : List Stmt} (h : ∀ s ∈ ss, s.jumpsOut = false) :
    execTop tiers bound ss = discard (execAll tiers bound ss) := by
  induction ss with
  | nil => rfl
  | cons s ss ih =>
    obtain ⟨hs, hss⟩ := List.forall_mem_cons.mp h
    calc execTop tiers bound (s :: ss)
        = discard (exec tiers bound s) >>= fun _ => discard (execAll tiers bound ss) := by
          rw [execTop, ih hss]
      _ = exec tiers bound s >>= fun _ => discard (execAll tiers bound ss) := by
          change (exec tiers bound s >>= fun _ => pure ()) >>= _ = _
          simp only [bind_assoc, pure_bind]
      _ = exec tiers bound s >>= fun flow =>
            discard (if flow = .normal then execAll tiers bound ss else pure flow) :=
          run_bind_congr fun frame flow frame' hrun => by
            rw [if_pos (endsNormally_exec hs frame flow frame' hrun)]
      _ = discard (execAll tiers bound (s :: ss)) := by
          change _ = (exec tiers bound s >>= _) >>= fun _ => pure ()
          rw [bind_assoc]
          rfl

/-- No run with the tiers takes a branch that is there for completeness only. -/
structure Program.Orderly (tiers : Tiers) (bound : ℕ) (p : Program) : Prop where
  /-- No statement of the body leaves it or goes on elsewhere. -/
  body : ∀ s ∈ p.body, (exec tiers bound s).EndsNormally
  /-- So it makes no difference that the flow of the body is ignored. -/
  flow : execTop tiers bound p.body = discard (execAll tiers bound p.body)
  init : ∀ s ∈ p.stmts, ∀ init ∈ s.init?, (exec tiers bound init).EndsNormally
  place : ∀ e ∈ p.exprs, ∀ target ∈ e.target?, ∀ locals,
    place tiers target locals ≠ .error unplaced
  run : run tiers bound p ≠ some (.error unplaced)
  /-- A name that is to be changed in place is bound by then. -/
  binds : ∀ locals name locals', tiers.bindLocal locals name = .ok locals' →
    Entries.contains locals' name = true

lemma Program.WellPlaced.orderly (hp : p.WellPlaced)
    (hwrites : ∀ s ∈ p.stmts, ∀ e ∈ s.exprs, e.WritesPlaces) : p.Orderly tiers bound where
  body s hs := endsNormally_exec (hp.jumps s hs)
  flow := execTop_eq_discard hp.jumps
  init s hs init hi := endsNormally_exec (hp.inits s hs init hi).jumpsOut
  place e hmem target ht locals := by
    obtain ⟨whole, hwhole, he⟩ := List.mem_flatMap.mp hmem
    obtain ⟨s, hs, hwhole⟩ := List.mem_flatMap.mp hwhole
    have hpart : e.WritesPlaces := Expr.forall_mem_parts_of_children
      (fun _ h _ => h.child) (hwrites s hs whole hwhole) e he
    have htarget : target.WritesPlaces := hpart.child (Expr.mem_children_of_target ht)
    exact fun h => (place_placed target htarget (hp.targets e hmem target ht) trivial).2 _ h rfl
  run h := by
    have hkeeps : ∀ s ∈ p.stmts, s.Keeps tiers (fun _ => True) (· ≠ unplaced) := fun s hs =>
      ⟨fun e he => eval_placed e (hwrites s hs e he), fun _ _ _ _ _ => trivial⟩
    exact run_error hkeeps trivial h rfl
  binds locals name locals' h := by
    rw [Tiers.bindLocal_eq] at h
    rcases hl : tiers.lookup locals name with e | v
    · rw [hl] at h
      cases h
    · rw [hl] at h
      cases h
      simp [Entries.contains]

/-- **Placement**: a program that was read has its jumps in loops and its writes at places, and
its runs rely on that rightly. -/
theorem parseProgram_placement (instructions : List Instruction) (p : Program)
    (h : parseProgram instructions = .ok p) :
    p.WellPlaced ∧ ∀ (tiers : Tiers) (bound : ℕ), p.Orderly tiers bound :=
  have hp := wellPlaced_of_parseProgram h
  ⟨hp, fun _ _ => hp.orderly (writesPlaces_of_mem_stmts h)⟩

/-- A loop with a jump, and writes to properties. -/
def summing : List Instruction :=
  [.execute ⟨"for (var it = first; it; it = it.next) \x7b if (it.skip) break;", 1⟩,
    .execute ⟨"sums[it.kind].total += it.price; \x7d", 2⟩]

theorem parseProgram_placement_summing : ∃ p, parseProgram summing = .ok p ∧
    (p.stmts.any fun s => s.init?.isSome) = true ∧ (p.exprs.filterMap Expr.target?).length = 2 ∧
    p.WellPlaced ∧ ∀ (tiers : Tiers) (bound : ℕ), p.Orderly tiers bound := by
  have hparts : (parseProgram summing).toOption.map (fun p =>
      ((p.stmts.any fun s => s.init?.isSome), (p.exprs.filterMap Expr.target?).length)) =
        some (true, 2) := by
    decide +kernel
  rcases hp : parseProgram summing with f | p
  · rw [hp] at hparts
    cases hparts
  · rw [hp] at hparts
    obtain ⟨hloop, hwrites⟩ := Prod.mk.inj (Option.some.inj hparts)
    exact ⟨p, rfl, hloop, hwrites, parseProgram_placement summing p hp⟩

end Stencil.Script
