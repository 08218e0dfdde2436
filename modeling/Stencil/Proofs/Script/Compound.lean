import Stencil.Proofs.Script.Placement

/-!
Compound assignments and updates.

A compound assignment reads its target and then finds out where to write, so the keys of its target
are evaluated twice. It changes the one place that it reads as long as the second time leads there
again and changes nothing more, which is so for all keys that do not write themselves.
-/

namespace Stencil

/-- The value at the end of a path of properties. -/
def Value.readPath (v : Value) (path : List String) : Except PropertyError Value :=
  path.foldlM Value.getProperty v

namespace Script

/-- The value of a variable, or at the end of a path of keys in it. -/
def Eval.read (tiers : Tiers) (root : String) (path : List String) : Eval Value := do
  let whole ← tiers.lookup (← get) root
  ofProperty (whole.readPath path)

open Eval

/-! ### One change of one place -/

/-- A compound assignment without its target. -/
inductive Compound where
  | add (value : Expr)
  | sub (value : Expr)
  | update (op : UpdateOp) (before : Bool)

namespace Compound

/-- The compound assignment as an expression. -/
def expr (target : Expr) : Compound → Expr
  | add value => .assign .add target value
  | sub value => .assign .sub target value
  | update op before => .update op before target

/-- The value on the right. An update has none. -/
def operand (tiers : Tiers) : Compound → Eval Value
  | add value | sub value => eval tiers value
  | update _ _ => pure .null

/-- What is written, and the value of the whole, from the old value and the operand. -/
def combine : Compound → Value → Value → Value × Value
  | add _, old, v => (old.add v, old.add v)
  | sub _, old, v => (old.arithmetic (· - ·) v, old.arithmetic (· - ·) v)
  | update op before, old, _ =>
    let new := op.apply old.toNumber
    (.ofFloat new, .ofFloat (if before then new else old.toNumber))

/-- The compound assignment as one change of one place: the place is found out once, and what is
read there is combined and written there. -/
def once (tiers : Tiers) (target : Expr) (c : Compound) : Eval Value := do
  let v ← c.operand tiers
  let (root, path) ← place tiers target
  let old ← read tiers root path
  store tiers root path (c.combine old v).1
  return (c.combine old v).2

end Compound

variable {tiers : Tiers} {target : Expr} {c : Compound} {locals locals' mid : Locals}
  {v old : Value} {root : String} {path : List String}

/-! ### Reading a target -/

lemma readPath_snoc_ok {w : Value} {key : String} : w.readPath (path ++ [key]) = .ok v ↔
    ∃ u, w.readPath path = .ok u ∧ u.getProperty key = .ok v := by
  rw [Value.readPath, List.foldlM_append]
  simp only [List.foldlM_cons, List.foldlM_nil, bind_pure]
  exact except_bind_ok

lemma ofProperty_ok {α : Type} {r : Except PropertyError α} {a : α} :
    ofProperty r locals = .ok (a, locals') ↔ r = .ok a ∧ locals = locals' := by
  rcases r with e | b
  · exact ⟨fun h => (by cases h), fun ⟨h, _⟩ => (by cases h)⟩
  · constructor
    · intro h
      cases h
      exact ⟨rfl, rfl⟩
    · rintro ⟨⟨⟩, rfl⟩
      rfl

lemma lift_ok {α : Type} {r : Except EvalError α} {a : α} :
    (liftM r : Eval α) locals = .ok (a, locals') ↔ r = .ok a ∧ locals = locals' := by
  rcases r with e | b
  · exact ⟨fun h => (by cases h), fun ⟨h, _⟩ => (by cases h)⟩
  · constructor
    · intro h
      cases h
      exact ⟨rfl, rfl⟩
    · rintro ⟨⟨⟩, rfl⟩
      rfl

lemma lookup_ok : (do tiers.lookup (← get) root : Eval Value) locals = .ok (v, locals') ↔
    tiers.lookup locals root = .ok v ∧ locals = locals' :=
  lift_ok (r := tiers.lookup locals root)

lemma read_ok : read tiers root path locals = .ok (v, locals') ↔
    (∃ whole, tiers.lookup locals root = .ok whole ∧ whole.readPath path = .ok v) ∧
      locals = locals' := by
  have hread : read tiers root path =
      (do tiers.lookup (← get) root : Eval Value) >>= fun whole =>
        ofProperty (whole.readPath path) := rfl
  rw [hread, state_bind_ok]
  constructor
  · rintro ⟨whole, mid, hwhole, hlast⟩
    obtain ⟨hlookup, rfl⟩ := lookup_ok.mp hwhole
    obtain ⟨hpath, rfl⟩ := ofProperty_ok.mp hlast
    exact ⟨⟨whole, hlookup, hpath⟩, rfl⟩
  · rintro ⟨⟨whole, hlookup, hpath⟩, rfl⟩
    exact ⟨whole, locals, lookup_ok.mpr ⟨hlookup, rfl⟩, ofProperty_ok.mpr ⟨hpath, rfl⟩⟩

/-- The value of a target is found along the path of its place, from the variable as it was before
the keys. -/
lemma eval_place (h : target.Place) : eval tiers target locals = .ok (v, mid) ↔
    ∃ root path whole, place tiers target locals = .ok ((root, path), mid) ∧
      tiers.lookup locals root = .ok whole ∧ whole.readPath path = .ok v := by
  induction h generalizing v mid with
  | ident name =>
    rw [eval, lookup_ok]
    constructor
    · rintro ⟨hlookup, rfl⟩
      exact ⟨name, [], v, rfl, hlookup, rfl⟩
    · rintro ⟨root, path, whole, hplace, hlookup, hread⟩
      cases hplace
      cases hread
      exact ⟨hlookup, rfl⟩
  | member property _ ih =>
    rw [eval, place, state_bind_ok]
    constructor
    · rintro ⟨w, mid', hw, hlast⟩
      obtain ⟨hget, rfl⟩ := ofProperty_ok.mp hlast
      obtain ⟨root, path, whole, hplace, hlookup, hread⟩ := ih.mp hw
      exact ⟨root, path ++ [property], whole, state_bind_ok.mpr ⟨_, _, hplace, rfl⟩, hlookup,
        readPath_snoc_ok.mpr ⟨w, hread, hget⟩⟩
    · rintro ⟨root, path, whole, hsteps, hlookup, hread⟩
      obtain ⟨⟨root', path'⟩, mid', hplace, hlast⟩ := state_bind_ok.mp hsteps
      cases hlast
      obtain ⟨w, hw, hget⟩ := readPath_snoc_ok.mp hread
      exact ⟨w, _, ih.mpr ⟨root, path', whole, hplace, hlookup, hw⟩, ofProperty_ok.mpr ⟨hget, rfl⟩⟩
  | index key _ ih =>
    rw [eval, place, state_bind_ok]
    constructor
    · rintro ⟨w, mid', hw, hrest⟩
      obtain ⟨k, mid'', hkey, hlast⟩ := state_bind_ok.mp hrest
      obtain ⟨hget, rfl⟩ := ofProperty_ok.mp hlast
      obtain ⟨root, path, whole, hplace, hlookup, hread⟩ := ih.mp hw
      exact ⟨root, path ++ [k.propertyKey], whole,
        state_bind_ok.mpr ⟨_, _, hplace, state_bind_ok.mpr ⟨k, _, hkey, rfl⟩⟩, hlookup,
        readPath_snoc_ok.mpr ⟨w, hread, hget⟩⟩
    · rintro ⟨root, path, whole, hsteps, hlookup, hread⟩
      obtain ⟨⟨root', path'⟩, mid', hplace, hrest⟩ := state_bind_ok.mp hsteps
      obtain ⟨k, mid'', hkey, hlast⟩ := state_bind_ok.mp hrest
      cases hlast
      obtain ⟨w, hw, hget⟩ := readPath_snoc_ok.mp hread
      exact ⟨w, _, ih.mpr ⟨root, path', whole, hplace, hlookup, hw⟩,
        state_bind_ok.mpr ⟨k, _, hkey, ofProperty_ok.mpr ⟨hget, rfl⟩⟩⟩

/-! ### What a compound assignment does -/

lemma write_ok {new result : Value} :
    (do store tiers root path new; return result : Eval Value) mid = .ok (v, locals') ↔
      store tiers root path new mid = .ok ((), locals') ∧ v = result := by
  rw [state_bind_ok]
  constructor
  · rintro ⟨⟨⟩, _, hstore, hlast⟩
    cases hlast
    exact ⟨hstore, rfl⟩
  · rintro ⟨hstore, rfl⟩
    exact ⟨(), locals', hstore, rfl⟩

/-- All kinds of compound assignments walk their target to read it and walk it again to write. -/
lemma eval_expr : eval tiers (c.expr target) = do
    let w ← c.operand tiers
    let old ← eval tiers target
    let (root, path) ← place tiers target
    store tiers root path (c.combine old w).1
    return (c.combine old w).2 := by
  cases c with
  | add value | sub value =>
    rw [Compound.expr, eval]
    simp only [map_eq_pure_bind, bind_assoc, pure_bind]
    rfl
  | update op before =>
    rw [Compound.expr, eval]
    rfl

/-- A compound assignment reads its target, and writes to where the target leads after that. -/
lemma eval_compound : eval tiers (c.expr target) locals = .ok (v, locals') ↔
    ∃ w start, c.operand tiers locals = .ok (w, start) ∧
    ∃ old mid, eval tiers target start = .ok (old, mid) ∧
    ∃ root path last, place tiers target mid = .ok ((root, path), last) ∧
      store tiers root path (c.combine old w).1 last = .ok ((), locals') ∧
      v = (c.combine old w).2 := by
  rw [eval_expr, state_bind_ok]
  refine exists_congr fun w => exists_congr fun start => and_congr_right fun _ => ?_
  rw [state_bind_ok]
  refine exists_congr fun old => exists_congr fun mid => and_congr_right fun _ => ?_
  rw [state_bind_ok]
  constructor
  · rintro ⟨⟨root, path⟩, last, hplace, hwrite⟩
    exact ⟨root, path, last, hplace, write_ok.mp hwrite⟩
  · rintro ⟨root, path, last, hplace, hwrite⟩
    exact ⟨(root, path), last, hplace, write_ok.mpr hwrite⟩

/-- A change of one place reads it as it is after the keys. -/
lemma once_ok : c.once tiers target locals = .ok (v, locals') ↔
    ∃ w start, c.operand tiers locals = .ok (w, start) ∧
    ∃ root path mid, place tiers target start = .ok ((root, path), mid) ∧
    ∃ old, read tiers root path mid = .ok (old, mid) ∧
      store tiers root path (c.combine old w).1 mid = .ok ((), locals') ∧
      v = (c.combine old w).2 := by
  rw [Compound.once, state_bind_ok]
  refine exists_congr fun w => exists_congr fun start => and_congr_right fun _ => ?_
  rw [state_bind_ok]
  constructor
  · rintro ⟨⟨root, path⟩, mid, hplace, hrest⟩
    obtain ⟨old, _, hread, hwrite⟩ := state_bind_ok.mp hrest
    obtain ⟨-, rfl⟩ := read_ok.mp hread
    exact ⟨root, path, mid, hplace, old, hread, write_ok.mp hwrite⟩
  · rintro ⟨root, path, mid, hplace, old, hread, hwrite⟩
    exact ⟨(root, path), mid, hplace,
      state_bind_ok.mpr ⟨old, mid, hread, write_ok.mpr hwrite⟩⟩

/-! ### Keys that lead to one place -/

/-- To evaluate the keys of a target again leads to the same place and changes nothing more, and
what is read at that place is the same before the keys and after them. -/
structure Steady (tiers : Tiers) (target : Expr) (start : Locals) : Prop where
  again : ∀ root path mid, place tiers target start = .ok ((root, path), mid) →
    place tiers target mid = .ok ((root, path), mid)
  unchanged : ∀ root path mid, place tiers target start = .ok ((root, path), mid) →
    ∀ old, read tiers root path start = .ok (old, start) ↔
      read tiers root path mid = .ok (old, mid)

/-- No write stands in an expression. -/
def Expr.Quiet (e : Expr) : Prop := ∀ x ∈ e.parts, x.target? = none

lemma keeps_of_quiet {I : Locals → Prop} {x : Expr} (h : x.target? = none) :
    x.Keeps tiers I fun _ => True where
  lookup _ _ _ _ _ _ := trivial
  callee _ _ _ _ _ _ _ := trivial
  helper _ _ _ _ := trivial
  property _ _ := trivial
  place target ht := by simp [h] at ht
  write target ht := by simp [h] at ht

/-- Keys in which no write stands leave the locals as they were. -/
lemma steady_of_quiet (htarget : target.Place) (h : target.Quiet) (start : Locals) :
    Steady tiers target start := by
  have hkeep : (place tiers target).Keeps (· = start) fun _ => True :=
    place_keeps target
      (fun _ hk x hx => keeps_of_quiet (h x (Expr.mem_parts_of_key hk hx.mem_parts))) (.inl htarget)
  have hsame {root : String} {path : List String} {mid : Locals}
      (hplace : place tiers target start = .ok ((root, path), mid)) : mid = start :=
    (hkeep rfl).1 (root, path) mid hplace
  constructor
  · intro root path mid hplace
    obtain rfl := hsame hplace
    exact hplace
  · intro root path mid hplace old
    rw [hsame hplace]

/-! ### One place -/

/-- The keys of the target lead to one place and then again to another. What is read at the first,
in the variable as it was before the keys, is combined and written to the second. -/
def Compound.Twice (tiers : Tiers) (target : Expr) (c : Compound) (locals : Locals) (v : Value)
    (locals' : Locals) : Prop :=
  ∃ w start, c.operand tiers locals = .ok (w, start) ∧
  ∃ root path mid, place tiers target start = .ok ((root, path), mid) ∧
  ∃ old, read tiers root path start = .ok (old, start) ∧
  ∃ path' last, place tiers target mid = .ok ((root, path'), last) ∧
    store tiers root path' (c.combine old w).1 last = .ok ((), locals') ∧
    v = (c.combine old w).2

/-- What a compound assignment does that succeeds. -/
structure Compound.AtPlace (tiers : Tiers) (target : Expr) (c : Compound) (locals : Locals) :
    Prop where
  twice : ∀ v locals', eval tiers (c.expr target) locals = .ok (v, locals') ↔
    c.Twice tiers target locals v locals'
  once : (∀ w start, c.operand tiers locals = .ok (w, start) → Steady tiers target start) →
    ∀ v locals', eval tiers (c.expr target) locals = .ok (v, locals') ↔
      c.once tiers target locals = .ok (v, locals')
  quiet : target.Quiet → ∀ v locals', eval tiers (c.expr target) locals = .ok (v, locals') ↔
    c.once tiers target locals = .ok (v, locals')

lemma eval_compound_twice (htarget : target.Place) :
    eval tiers (c.expr target) locals = .ok (v, locals') ↔
      c.Twice tiers target locals v locals' := by
  rw [eval_compound, Compound.Twice]
  refine exists_congr fun w => exists_congr fun start => and_congr_right fun _ => ?_
  constructor
  · rintro ⟨old, mid, hold, root', path', last, hagain, hwrite⟩
    obtain ⟨root, path, whole, hplace, hlookup, hpath⟩ := (eval_place htarget).mp hold
    have hroot : root' = root :=
      (place_root_eq htarget hagain).trans (place_root_eq htarget hplace).symm
    subst hroot
    exact ⟨_, path, mid, hplace, old, read_ok.mpr ⟨⟨whole, hlookup, hpath⟩, rfl⟩, path', last,
      hagain, hwrite⟩
  · rintro ⟨root, path, mid, hplace, old, hread, path', last, hagain, hwrite⟩
    obtain ⟨⟨whole, hlookup, hpath⟩, -⟩ := read_ok.mp hread
    exact ⟨old, mid, (eval_place htarget).mpr ⟨root, path, whole, hplace, hlookup, hpath⟩, root,
      path', last, hagain, hwrite⟩

lemma eval_compound_steady (htarget : target.Place)
    (h : ∀ w start, c.operand tiers locals = .ok (w, start) → Steady tiers target start) :
    eval tiers (c.expr target) locals = .ok (v, locals') ↔
      c.once tiers target locals = .ok (v, locals') := by
  rw [eval_compound_twice htarget, Compound.Twice, once_ok]
  refine exists_congr fun w => exists_congr fun start => and_congr_right fun hstart => ?_
  obtain ⟨hagain, hread⟩ := h w start hstart
  constructor
  · rintro ⟨root, path, mid, hplace, old, hold, path', last, hplace', hwrite⟩
    cases (hagain root path mid hplace).symm.trans hplace'
    exact ⟨root, path, mid, hplace, old, (hread root path mid hplace old).mp hold, hwrite⟩
  · rintro ⟨root, path, mid, hplace, old, hold, hwrite⟩
    exact ⟨root, path, mid, hplace, old, (hread root path mid hplace old).mpr hold, path, mid,
      hagain root path mid hplace, hwrite⟩

/-- **Compound assignments.** A compound assignment that succeeds evaluates the keys of its target
twice. It reads where the first time leads, from the variable as it was before, and writes where
the second time leads. Where both times lead to one place and the second changes nothing more, it
changes that place as if the keys had been evaluated once, and so it does wherever no write stands
in the keys. -/
theorem compound_at_place (tiers : Tiers) (target : Expr) (htarget : target.isAssignable = true)
    (c : Compound) (locals : Locals) : c.AtPlace tiers target locals := by
  have hplace : target.Place := Expr.place_of_isAssignable htarget
  constructor
  case twice =>
    intro v locals'
    exact eval_compound_twice hplace
  case once =>
    intro hsteady v locals'
    exact eval_compound_steady hplace hsteady
  case quiet =>
    intro hquiet v locals'
    exact eval_compound_steady hplace fun _ start _ => steady_of_quiet hplace hquiet start

/-- No data, no context and no helpers. -/
def bare : Tiers := ⟨.null, .empty, []⟩

/-- A text added at a key, which is chosen in the target. -/
theorem compound_at_place_chosen :
    let target : Expr := .index (.ident "o") (.assign .set (.ident "k") (.literal (.str "x")))
    let c : Compound := .add (.literal (.str "y"))
    let locals : Locals := [("k", .str ""), ("o", .obj [("x", .str "p")])]
    let locals' : Locals := [("k", .str "x"), ("o", .obj [("x", .str "py")])]
    target.isAssignable = true ∧ Steady bare target locals ∧
      eval bare (c.expr target) locals = .ok (.str "py", locals') ∧
      c.once bare target locals = .ok (.str "py", locals') := by
  intro target c locals locals'
  have hsteady : Steady bare target locals := by
    constructor
    · intro root path mid hplace
      cases hplace
      rfl
    · intro root path mid hplace old
      cases hplace
      exact ⟨fun h => by cases h; rfl, fun h => by cases h; rfl⟩
  have heval : eval bare (c.expr target) locals = .ok (.str "py", locals') := rfl
  refine ⟨rfl, hsteady, heval, ?_⟩
  refine ((compound_at_place bare target rfl c locals).once ?_ _ _).mp heval
  intro w start hw
  cases hw
  exact hsteady

/-- A key that grows whenever it is evaluated: what was read in one place is written to another. -/
theorem compound_at_place_grown :
    let target : Expr := .index (.ident "o") (.assign .add (.ident "k") (.literal (.str "x")))
    let c : Compound := .add (.literal (.str "y"))
    let locals : Locals := [("k", .str ""), ("o", .obj [("x", .str "p"), ("xx", .str "q")])]
    let evaluated : Locals := [("k", .str "xx"), ("o", .obj [("x", .str "p"), ("xx", .str "py")])]
    let changed : Locals := [("k", .str "x"), ("o", .obj [("x", .str "py"), ("xx", .str "q")])]
    target.isAssignable = true ∧
      eval bare (c.expr target) locals = .ok (.str "py", evaluated) ∧
      c.once bare target locals = .ok (.str "py", changed) ∧ evaluated ≠ changed := by
  intro target c locals evaluated changed
  have hkey : ("xx" : String) ≠ "x" := by decide
  refine ⟨rfl, rfl, rfl, fun h => ?_⟩
  obtain ⟨hfirst, -⟩ := List.cons.inj h
  exact hkey (Value.str.inj (Prod.mk.inj hfirst).2)

end Script

end Stencil
