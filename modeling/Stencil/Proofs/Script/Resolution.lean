import Stencil.Proofs.Outcome
import Stencil.Proofs.Script.Parts
import Stencil.Script.Exec

/-!
What a run takes from the tiers.

A run asks the tiers about names of its program only, and what it is told depends on no more than
the value and the helper that the tiers together have for a name.
-/

namespace Stencil

namespace Tiers

variable {t t' : Tiers} {name : String}

/-- The tiers have the same value and the same helper for a name. -/
structure Agrees (t t' : Tiers) (name : String) : Prop where
  value : (t.scopeValue? name).or (Entries.find? t.context.values name) =
    (t'.scopeValue? name).or (Entries.find? t'.context.values name)
  helper : t.helper? name = t'.helper? name

lemma Agrees.value?_eq (h : t.Agrees t' name) (locals : Locals) :
    t.value? locals name = t'.value? locals name := by
  rw [value?, h.value, value?]

lemma Agrees.lookup_eq (h : t.Agrees t' name) (locals : Locals) :
    t.lookup locals name = t'.lookup locals name := by
  rw [lookup, h.value?_eq, h.helper, lookup]

lemma Agrees.callee_eq (h : t.Agrees t' name) (locals : Locals) :
    t.callee locals name = t'.callee locals name := by
  rw [callee, h.value?_eq, h.helper, callee]

lemma Agrees.localCopy_eq (h : t.Agrees t' name) (locals : Locals) :
    t.localCopy locals name = t'.localCopy locals name := by
  rw [Tiers.localCopy_eq, h.lookup_eq, Tiers.localCopy_eq]

lemma Agrees.declare_eq (h : t.Agrees t' name) (locals : Locals) (v : Option Value) :
    t.declare locals name v = t'.declare locals name v := by
  cases v with
  | some v => rfl
  | none => rw [declare, h.value?_eq, declare]

/-- The tiers agree on several names. -/
def AgreeOn (t t' : Tiers) (names : List String) : Prop := ∀ name ∈ names, t.Agrees t' name

variable {names names' : List String}

lemma agreeOn_append :
    t.AgreeOn t' (names ++ names') ↔ t.AgreeOn t' names ∧ t.AgreeOn t' names' := by
  simp only [AgreeOn, List.mem_append, or_imp, forall_and]

lemma agreeOn_cons :
    t.AgreeOn t' (name :: names) ↔ t.Agrees t' name ∧ t.AgreeOn t' names := by
  simp only [AgreeOn, List.mem_cons, forall_eq_or_imp]

end Tiers

namespace Script

open Tiers Eval Exec

variable {t t' : Tiers}

/-! ### Evaluations -/

/-- A place begins with a name of the expression that stands for it. -/
lemma place_root : ∀ (e : Expr) {locals locals' : Locals} {root : String} {path : List String},
    place t e locals = .ok ((root, path), locals') → root ∈ e.names
  | .ident name, locals, locals', root, path, h => by
    cases h
    simp
  | .member target property, locals, locals', root, path, h => by
    rw [place, state_bind_ok] at h
    obtain ⟨⟨root', path'⟩, mid, hp, h⟩ := h
    cases h
    simpa using place_root target hp
  | .index target key, locals, locals', root, path, h => by
    rw [place, state_bind_ok] at h
    obtain ⟨⟨root', path'⟩, mid, hp, h⟩ := h
    rw [state_bind_ok] at h
    obtain ⟨k, mid', -, h⟩ := h
    cases h
    simpa using .inl (place_root target hp)
  | .literal _, _, _, _, _, h | .array _, _, _, _, _, h | .object _, _, _, _, _, h
  | .call _ _, _, _, _, _, h | .unary _ _, _, _, _, _, h | .binary _ _ _, _, _, _, _, h
  | .logical _ _ _, _, _, _, _, h | .conditional _ _ _, _, _, _, _, h
  | .assign _ _ _, _, _, _, _, h | .update _ _ _, _, _, _, _, h
  | .sequence _, _, _, _, _, h => by
    simp only [place] at h
    cases h

lemma store_congr {root : String} (h : t.Agrees t' root) (path : List String) (v : Value) :
    store t root path v = store t' root path v := by
  cases path with
  | nil => rfl
  | cons key keys => simp only [store, h.localCopy_eq]

/-- Writing to a place depends on the names of the place, once evaluations do. -/
lemma place_store_congr {β : Type} {e : Expr} (h : t.AgreeOn t' e.names)
    (hplace : place t e = place t' e) (v : Value) (f : Unit → Eval β) :
    (do let (root, path) ← place t e; let u ← store t root path v; f u) =
      (do let (root, path) ← place t' e; let u ← store t' root path v; f u) := by
  rw [hplace]
  refine state_bind_congr fun locals p mid hp => ?_
  obtain ⟨root, path⟩ := p
  simp only [store_congr (h root (place_root e hp))]

mutual

/-- An evaluation depends on the names of its expression alone. -/
theorem eval_congr : ∀ e : Expr, t.AgreeOn t' e.names → eval t e = eval t' e
  | .literal _, _ => by simp only [eval]
  | .ident name, h => by
    have hname : t.Agrees t' name := h name (by simp)
    simp only [eval, hname.lookup_eq]
  | .array items, h => by
    rw [Expr.names_array] at h
    simp only [eval, evalList_congr items h]
  | .object entries, h => by
    rw [Expr.names_object] at h
    simp only [eval, evalEntries_congr entries h]
  | .member target _, h => by
    rw [Expr.names_member] at h
    simp only [eval, eval_congr target h]
  | .index target key, h => by
    rw [Expr.names_index, agreeOn_append] at h
    simp only [eval, eval_congr target h.1, eval_congr key h.2]
  | .call name args, h => by
    rw [Expr.names_call, agreeOn_cons] at h
    simp only [eval, evalList_congr args h.2, h.1.callee_eq]
  | .unary _ operand, h => by
    rw [Expr.names_unary] at h
    simp only [eval, eval_congr operand h]
  | .binary _ left right, h => by
    rw [Expr.names_binary, agreeOn_append] at h
    simp only [eval, eval_congr left h.1, eval_congr right h.2]
  | .logical _ left right, h => by
    rw [Expr.names_logical, agreeOn_append] at h
    simp only [eval, eval_congr left h.1, eval_congr right h.2]
  | .conditional test yes no, h => by
    rw [Expr.names_conditional, agreeOn_append, agreeOn_append] at h
    simp only [eval, eval_congr test h.1, eval_congr yes h.2.1, eval_congr no h.2.2]
  | .assign op target value, h => by
    rw [Expr.names_assign, agreeOn_append] at h
    have hplace : place t target = place t' target := place_congr target h.1
    simp only [eval, eval_congr value h.2, eval_congr target h.1, place_store_congr h.1 hplace]
  | .update _ _ target, h => by
    rw [Expr.names_update] at h
    simp only [eval, eval_congr target h, place_store_congr h (place_congr target h)]
  | .sequence items, h => by
    rw [Expr.names_sequence] at h
    simp only [eval, evalList_congr items h]

theorem place_congr : ∀ e : Expr, t.AgreeOn t' e.names → place t e = place t' e
  | .ident _, _ => by simp only [place]
  | .member target _, h => by
    rw [Expr.names_member] at h
    simp only [place, place_congr target h]
  | .index target key, h => by
    rw [Expr.names_index, agreeOn_append] at h
    simp only [place, place_congr target h.1, eval_congr key h.2]
  | .literal _, _ | .array _, _ | .object _, _ | .call _ _, _ | .unary _ _, _ | .binary _ _ _, _
  | .logical _ _ _, _ | .conditional _ _ _, _ | .assign _ _ _, _ | .update _ _ _, _
  | .sequence _, _ => by simp only [place]

theorem evalList_congr : ∀ es : List Expr, t.AgreeOn t' (es.flatMap Expr.names) →
    evalList t es = evalList t' es
  | [], _ => by simp only [evalList]
  | e :: es, h => by
    rw [List.flatMap_cons, agreeOn_append] at h
    simp only [evalList, eval_congr e h.1, evalList_congr es h.2]

theorem evalEntries_congr : ∀ es : List (String × Expr),
    t.AgreeOn t' (es.flatMap fun p => p.2.names) → evalEntries t es = evalEntries t' es
  | [], _ => by simp only [evalEntries]
  | (name, e) :: es, h => by
    rw [List.flatMap_cons, agreeOn_append] at h
    simp only [evalEntries, eval_congr e h.1, evalEntries_congr es h.2]

end

/-! ### Runs -/

variable {bound : ℕ}

lemma holds_congr : ∀ test : Option Expr, t.AgreeOn t' (test.toList.flatMap Expr.names) →
    holds t test = holds t' test
  | none, _ => rfl
  | some e, h => by
    have he : eval t e = eval t' e := eval_congr e (by simpa using h)
    rw [holds, he, holds]

lemma evalOption_congr : ∀ e : Option Expr, t.AgreeOn t' (e.toList.flatMap Expr.names) →
    evalOption t e = evalOption t' e
  | none, _ => rfl
  | some e, h => by
    have he : eval t e = eval t' e := eval_congr e (by simpa using h)
    rw [evalOption, he, evalOption]

lemma declareAll_congr : ∀ bindings : List (String × Option Expr),
    t.AgreeOn t' (bindings.map (·.1)) →
    t.AgreeOn t' ((bindings.filterMap (·.2)).flatMap Expr.names) →
    declareAll t bindings = declareAll t' bindings
  | [], _, _ => rfl
  | (name, init) :: rest, hnames, hexprs => by
    rw [List.map_cons, agreeOn_cons] at hnames
    have hsplit : (((name, init) :: rest).filterMap (·.2)).flatMap Expr.names =
        init.toList.flatMap Expr.names ++ (rest.filterMap (·.2)).flatMap Expr.names := by
      cases init <;> simp
    rw [hsplit, agreeOn_append] at hexprs
    simp only [declareAll, evalOption_congr init hexprs.1, hnames.1.declare_eq,
      declareAll_congr rest hnames.2 hexprs.2]

lemma writeOutput_congr (o : Output) (h : t.AgreeOn t' (o.exprs.flatMap Expr.names)) :
    writeOutput t o = writeOutput t' o := by
  cases o with
  | literal text => rfl
  | escaped e =>
    have he : eval t e = eval t' e := eval_congr e (by simpa [Output.exprs] using h)
    rw [writeOutput, he, writeOutput]
  | raw e =>
    have he : eval t e = eval t' e := eval_congr e (by simpa [Output.exprs] using h)
    rw [writeOutput, he, writeOutput]

lemma loopRound_congr {test update : Option Expr} {body body' : Exec Flow}
    (htest : t.AgreeOn t' (test.toList.flatMap Expr.names))
    (hupdate : t.AgreeOn t' (update.toList.flatMap Expr.names)) (hbody : body = body') :
    loopRound t test update body = loopRound t' test update body' := by
  rw [loopRound, holds_congr test htest, evalOption_congr update hupdate, hbody, loopRound]

mutual

/-- What a statement does depends on the names in it alone. -/
theorem exec_congr : ∀ s : Stmt, t.AgreeOn t' s.names → exec t bound s = exec t' bound s
  | .output o, h => by
    rw [Stmt.names_output] at h
    simp only [exec, writeOutput_congr o h]
  | .expr e, h => by
    rw [Stmt.names_expr] at h
    simp only [exec, eval_congr e h]
  | .declare bindings, h => by
    rw [Stmt.names_declare, agreeOn_append] at h
    simp only [exec, declareAll_congr bindings h.1 h.2]
  | .block body, h => by
    rw [Stmt.names_block] at h
    simp only [exec, execAll_congr body h]
  | .branch test yes no, h => by
    rw [Stmt.names_branch, agreeOn_append, agreeOn_append] at h
    simp only [exec, eval_congr test h.1, exec_congr yes h.2.1, execOption_congr no h.2.2]
  | .forLoop init test update body, h => by
    rw [Stmt.names_forLoop, List.flatMap_append, agreeOn_append, agreeOn_append,
      agreeOn_append] at h
    obtain ⟨⟨htest, hupdate⟩, hinit, hbody⟩ := h
    simp only [exec, execOption_congr init hinit,
      loopRound_congr htest hupdate (exec_congr body hbody)]
  | .whileLoop test body, h => by
    rw [Stmt.names_whileLoop, agreeOn_append] at h
    have htest : t.AgreeOn t' ((some test).toList.flatMap Expr.names) := by simpa using h.1
    have hupdate : t.AgreeOn t' ((none : Option Expr).toList.flatMap Expr.names) := by
      simp [AgreeOn]
    simp only [exec, loopRound_congr htest hupdate (exec_congr body h.2)]
  | .leave, _ | .resume, _ | .empty, _ => by simp only [exec]

theorem execOption_congr : ∀ s : Option Stmt, t.AgreeOn t' (s.toList.flatMap Stmt.names) →
    execOption t bound s = execOption t' bound s
  | none, _ => by simp only [execOption]
  | some s, h => by
    have hs : t.AgreeOn t' s.names := by simpa using h
    simp only [execOption, exec_congr s hs]

theorem execAll_congr : ∀ ss : List Stmt, t.AgreeOn t' (ss.flatMap Stmt.names) →
    execAll t bound ss = execAll t' bound ss
  | [], _ => by simp only [execAll]
  | s :: ss, h => by
    rw [List.flatMap_cons, agreeOn_append] at h
    simp only [execAll, exec_congr s h.1, execAll_congr ss h.2]

end

lemma execTop_congr {ss : List Stmt} (h : t.AgreeOn t' (ss.flatMap Stmt.names)) :
    execTop t bound ss = execTop t' bound ss := by
  induction ss with
  | nil => rfl
  | cons s ss ih =>
    rw [List.flatMap_cons, agreeOn_append] at h
    rw [execTop, exec_congr s h.1, ih h.2, execTop]

/-- A run depends on what the tiers have for the names in its program. -/
lemma run_congr {p : Program} (h : t.AgreeOn t' p.names) : run t bound p = run t' bound p := by
  rw [run, execTop_congr h, run]

end Script

/-! ### Tiers as one -/

namespace Entries

variable {α : Type}

/-- Entries with others laid over them, which hide those of the same name. -/
def overlay (base top : Entries α) : Entries α := top.foldr (fun e es => put es e.1 e.2) base

lemma find?_overlay (base top : Entries α) (name : String) :
    find? (overlay base top) name = (find? top name).or (find? base name) := by
  induction top with
  | nil => rfl
  | cons e top ih =>
    obtain ⟨n, a⟩ := e
    have hcons : overlay base ((n, a) :: top) = put (overlay base top) n a := rfl
    rw [hcons, find?_cons]
    by_cases hn : n = name
    · rw [if_pos hn, hn, find?_put_self, Option.some_or]
    · rw [if_neg hn, find?_put_of_ne (Ne.symm hn), ih]

end Entries

namespace Tiers

/-- The entries that the data contributes. -/
def scopeEntries (t : Tiers) : Entries Value :=
  match t.scope with
  | .obj es => es
  | _ => []

/-- All values in the data and all helpers in one table, with no context between them. -/
def flat (t : Tiers) : Tiers where
  scope := .obj (Entries.overlay t.context.values t.scopeEntries)
  context := .empty
  api := Entries.overlay t.api t.context.helpers

lemma scopeValue?_eq (t : Tiers) (name : String) :
    t.scopeValue? name = Entries.find? t.scopeEntries name := by
  obtain ⟨scope, context, api⟩ := t
  cases scope <;> rfl

lemma agrees_flat (t : Tiers) (name : String) : t.Agrees t.flat name where
  value := by
    have hflat : t.flat.scopeValue? name =
        (Entries.find? t.scopeEntries name).or (Entries.find? t.context.values name) :=
      Entries.find?_overlay _ _ _
    have hnone : Entries.find? t.flat.context.values name = none := rfl
    rw [hflat, hnone, Option.or_none, scopeValue?_eq]
  helper := by
    have hflat : Entries.find? t.flat.api name = t.helper? name := Entries.find?_overlay _ _ _
    have hnone : Entries.find? t.flat.context.helpers name = none := rfl
    rw [helper?, helper?, hnone, Option.none_or, hflat, helper?]

/-- Every tier by itself has the same for a name. -/
structure SameAt (t t' : Tiers) (name : String) : Prop where
  scope : t.scopeValue? name = t'.scopeValue? name
  value : Entries.find? t.context.values name = Entries.find? t'.context.values name
  helper : Entries.find? t.context.helpers name = Entries.find? t'.context.helpers name
  api : Entries.find? t.api name = Entries.find? t'.api name

lemma SameAt.agrees {t t' : Tiers} {name : String} (h : t.SameAt t' name) : t.Agrees t' name where
  value := by rw [h.scope, h.value]
  helper := by rw [helper?, h.helper, h.api, helper?]

end Tiers

namespace Script

/-- **Resolution**: a run comes to the same, in its text or its error, when the tiers are made
one, and also when they are changed at names that do not occur in the program. -/
theorem run_resolution (t : Tiers) (bound : ℕ) (p : Program) :
    run t bound p = run t.flat bound p ∧
      ∀ t' : Tiers, (∀ name ∈ p.names, t.SameAt t' name) → run t bound p = run t' bound p :=
  ⟨run_congr fun name _ => t.agrees_flat name, fun _ h =>
    run_congr fun name hn => (h name hn).agrees⟩

/-- Calls a helper on a value of the data and writes a shared value. -/
def greeting : Program :=
  ⟨[.declare [("who", some (.call "first" [.ident "names"]))], .output (.escaped (.ident "who")),
    .output (.literal "@"), .output (.escaped (.ident "site"))]⟩

def firstArgument : Helper := fun args => .ok (Helper.argument args 0)

def greetingTiers : Tiers :=
  ⟨.obj [("names", .str "Ann")], ⟨[("site", .str "a.org")], []⟩, [("first", firstArgument)]⟩

/-- Other names in every tier, before and after those of the program. -/
def widerTiers : Tiers :=
  ⟨.obj [("name", .null), ("names", .str "Ann")],
    ⟨[("site", .str "a.org"), ("sites", .null)], [("last", firstArgument)]⟩,
    [("e", firstArgument), ("first", firstArgument)]⟩

theorem run_resolution_greeting :
    run widerTiers 0 greeting = some (.ok "Ann@a.org") ∧
      (∀ name ∈ greeting.names, greetingTiers.SameAt widerTiers name) ∧
      run greetingTiers 0 greeting = run widerTiers 0 greeting ∧
      run greetingTiers 0 greeting = run greetingTiers.flat 0 greeting := by
  have hsame : ∀ name ∈ greeting.names, greetingTiers.SameAt widerTiers name := by
    have hnames : greeting.names = ["who", "first", "names", "who", "site"] := rfl
    rw [hnames]
    simp only [List.forall_mem_cons]
    exact ⟨⟨rfl, rfl, rfl, rfl⟩, ⟨rfl, rfl, rfl, rfl⟩, ⟨rfl, rfl, rfl, rfl⟩, ⟨rfl, rfl, rfl, rfl⟩,
      ⟨rfl, rfl, rfl, rfl⟩, by simp⟩
  have hrun := run_resolution greetingTiers 0 greeting
  exact ⟨rfl, hsame, hrun.2 widerTiers hsame, hrun.1⟩

end Script

end Stencil
