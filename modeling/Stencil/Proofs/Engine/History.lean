import Mathlib.Data.List.Induction
import Stencil.Engine

/-!
Engines over time.

An engine changes by its operations only, one after the other. What is in its cache for a key was
stored by one of them, with the markers and rules of that moment, and no later one displaced it.
-/

namespace Stencil

/-! ### Operations -/

/-- An operation on an engine, with what it is given. -/
inductive Operation where
  | configure (c : Config)
  | mapContext (f : Context → Context)
  | registerHelper (name : String) (h : Helper)
  | mapRules (f : Rules → Rules)
  | compile (text : String)
  | precompile (key text : String)
  | getOrCompile (key text : String)
  | execute (bound : ℕ) (t : Template) (data : Value)
  | render (bound : ℕ) (text : String) (data : Value)
  | renderCached (bound : ℕ) (key text : String) (data : Value)
  | renderTemplate (bound : ℕ) (key : String) (data : Value)
  | renderFile (bound : ℕ) (load : Loader) (key : String) (data : Value)
  | removeCached (key : String)
  | clearCache

/-- What an operation answers with. -/
inductive Outcome where
  | done
  | refused (error : ConfigError)
  | compiled (t : Except TemplateError Template)
  | rendered (r : Rendered)

/-- The error of a compilation or a render. -/
def Outcome.error? : Outcome → Option TemplateError
  | .compiled (.error error) | .rendered (some (.error error)) => some error
  | _ => none

/-- The template failed as it ran, not before. -/
def TemplateError.isEvaluation : TemplateError → Bool
  | .evaluation _ _ => true
  | _ => false

/-- The key that an operation renders under while it compiles what is missing. -/
def Operation.cachedKey? : Operation → Option String
  | .renderCached _ key _ _ | .renderFile _ _ key _ => some key
  | _ => none

namespace Engine

def step (e : Engine) : Operation → Outcome × Engine
  | .configure c =>
    match e.configure c with
    | .ok e' => (.done, e')
    | .error error => (.refused error, e)
  | .mapContext f => (.done, e.mapContext f)
  | .registerHelper name h => (.done, e.registerHelper name h)
  | .mapRules f => (.done, e.mapRules f)
  | .compile text => (.compiled (e.compile text), e)
  | .precompile key text => (e.precompile key text).map .compiled id
  | .getOrCompile key text => (e.getOrCompile key text).map .compiled id
  | .execute bound t data => (.rendered (e.execute bound t data), e)
  | .render bound text data => (.rendered (e.render bound text data), e)
  | .renderCached bound key text data => (e.renderCached bound key text data).map .rendered id
  | .renderTemplate bound key data => (.rendered (e.renderTemplate bound key data), e)
  | .renderFile bound load key data => (e.renderFile bound load key data).map .rendered id
  | .removeCached key => (.done, e.removeCached key)
  | .clearCache => (.done, e.clearCache)

/-- The engine after operations, the first of them first. -/
def after (e : Engine) (ops : List Operation) : Engine := ops.foldl (fun e op => (e.step op).2) e

@[simp] lemma after_nil (e : Engine) : e.after [] = e := rfl

lemma after_snoc (e : Engine) (ops : List Operation) (op : Operation) :
    e.after (ops ++ [op]) = ((e.after ops).step op).2 := by
  simp [after]

/-! ### What operations do to the cache -/

/-- The template is what the engine makes of the text, with its markers and its rules. -/
structure Compiles (e : Engine) (key text : String) (t : Template) : Prop where
  name : t.name = key
  instructions : Instruction.generate e.rules (e.markers.scan text) = .ok t.instructions
  program : Script.parseProgram t.instructions = .ok t.program

/-- The operation succeeds in compiling the template and puts it into the cache under the key.
All but one of the operations that compile do so only for keys that are absent. -/
inductive Stores (e : Engine) : Operation → String → Template → Prop
  | precompile {key text : String} {t : Template} : e.Compiles key text t →
      Stores e (.precompile key text) key t
  | getOrCompile {key text : String} {t : Template} : Entries.find? e.cache key = none →
      e.Compiles key text t → Stores e (.getOrCompile key text) key t
  | renderCached {bound : ℕ} {key text : String} {data : Value} {t : Template} :
      Entries.find? e.cache key = none → e.Compiles key text t →
      Stores e (.renderCached bound key text data) key t
  | renderFile {bound : ℕ} {load : Loader} {key text : String} {data : Value} {t : Template} :
      load key = .ok text → Entries.find? e.cache key = none → e.Compiles key text t →
      Stores e (.renderFile bound load key data) key t

/-- What was in the cache under the key is there no more after the operation. -/
def Displaces (e : Engine) (op : Operation) (key : String) : Prop :=
  op = .removeCached key ∨ op = .clearCache ∨ ∃ t, e.Stores op key t

/-- The engine with a template put into its cache. -/
def cached (e : Engine) (key : String) (t : Template) : Engine :=
  { e with cache := Entries.put e.cache key t }

variable {e : Engine} {key text : String} {t : Template}

lemma compileNamed_ok : e.compileNamed key text = .ok t ↔ e.Compiles key text t := by
  unfold compileNamed Template.compile
  constructor
  · intro h
    split at h
    · cases h
    · rename_i hg
      split at h
      · cases h
      · rename_i hp
        cases h
        exact ⟨rfl, hg, hp⟩
  · rintro ⟨rfl, hg, hp⟩
    simp only [hg, hp]

lemma Compiles.unique {t' : Template} (h : e.Compiles key text t) (h' : e.Compiles key text t') :
    t = t' :=
  Except.ok.inj ((compileNamed_ok.mpr h).symm.trans (compileNamed_ok.mpr h'))

lemma precompile_cases (e : Engine) (key text : String) :
    (∃ error, e.precompile key text = (.error error, e) ∧ ∀ t, ¬ e.Compiles key text t) ∨
      ∃ t, e.precompile key text = (.ok t, e.cached key t) ∧ e.Compiles key text t := by
  unfold precompile
  rcases h : e.compileNamed key text with error | t
  · refine .inl ⟨error, rfl, fun t ht => ?_⟩
    rw [compileNamed_ok.mpr ht] at h
    cases h
  · exact .inr ⟨t, rfl, compileNamed_ok.mp h⟩

lemma getOrCompile_of_find? (h : Entries.find? e.cache key = some t) (text : String) :
    e.getOrCompile key text = (.ok t, e) := by
  simp only [getOrCompile, h]

lemma getOrCompile_of_absent (h : Entries.find? e.cache key = none) (text : String) :
    e.getOrCompile key text = e.precompile key text := by
  simp only [getOrCompile, h]

/-- What an operation may do for a key that is to be in the cache: fail, find a template there, or
compile one. -/
lemma getOrCompile_cases (e : Engine) (key text : String) :
    (∃ r, e.getOrCompile key text = (r, e) ∧
      ∀ t, Entries.find? e.cache key = none → ¬ e.Compiles key text t) ∨
      ∃ t, e.getOrCompile key text = (.ok t, e.cached key t) ∧
        Entries.find? e.cache key = none ∧ e.Compiles key text t := by
  rcases hf : Entries.find? e.cache key with _ | t
  · rw [getOrCompile_of_absent hf]
    rcases e.precompile_cases key text with ⟨error, h, hnone⟩ | ⟨t, h, ht⟩
    · exact .inl ⟨_, h, fun t _ => hnone t⟩
    · exact .inr ⟨t, h, rfl, ht⟩
  · exact .inl ⟨_, getOrCompile_of_find? hf text, fun _ h => by cases h⟩

lemma renderCached_cases (e : Engine) (bound : ℕ) (key text : String) (data : Value) :
    (∃ r, e.renderCached bound key text data = (r, e) ∧
      ∀ t, Entries.find? e.cache key = none → ¬ e.Compiles key text t) ∨
      ∃ t, e.renderCached bound key text data =
          ((e.cached key t).execute bound t data, e.cached key t) ∧
        Entries.find? e.cache key = none ∧ e.Compiles key text t := by
  rcases e.getOrCompile_cases key text with ⟨r, h, hnone⟩ | ⟨t, h, hf, ht⟩
  · exact .inl ⟨_, by rw [renderCached, h], hnone⟩
  · exact .inr ⟨t, by rw [renderCached, h]; rfl, hf, ht⟩

variable {op : Operation}

/-- An operation stores a template and does nothing else to the engine, or leaves the engine as it
is, or changes it without fail. -/
lemma step_cases (e : Engine) (op : Operation) :
    (∃ key t, e.Stores op key t ∧ (e.step op).2 = e.cached key t) ∨
      (∀ key t, ¬ e.Stores op key t) ∧ ((e.step op).2 = e ∨ (e.step op).1 = .done ∧
        ((∃ key, op = .removeCached key) ∨ op = .clearCache ∨ (e.step op).2.cache = e.cache)) := by
  cases op with
  | precompile key text =>
    rcases e.precompile_cases key text with ⟨error, h, hnone⟩ | ⟨t, h, ht⟩
    · refine .inr ⟨fun _ t hs => ?_, .inl (by rw [step, h]; rfl)⟩
      cases hs with
      | precompile ht => exact hnone t ht
    · exact .inl ⟨key, t, .precompile ht, by rw [step, h]; rfl⟩
  | getOrCompile key text =>
    rcases e.getOrCompile_cases key text with ⟨r, h, hnone⟩ | ⟨t, h, hf, ht⟩
    · refine .inr ⟨fun _ t hs => ?_, .inl (by rw [step, h]; rfl)⟩
      cases hs with
      | getOrCompile hf ht => exact hnone t hf ht
    · exact .inl ⟨key, t, .getOrCompile hf ht, by rw [step, h]; rfl⟩
  | renderCached bound key text data =>
    rcases e.renderCached_cases bound key text data with ⟨r, h, hnone⟩ | ⟨t, h, hf, ht⟩
    · refine .inr ⟨fun _ t hs => ?_, .inl (by rw [step, h]; rfl)⟩
      cases hs with
      | renderCached hf ht => exact hnone t hf ht
    · exact .inl ⟨key, t, .renderCached hf ht, by rw [step, h]; rfl⟩
  | renderFile bound load key data =>
    rcases hload : load key with error | text
    · refine .inr ⟨fun _ t hs => ?_, .inl (by rw [step, renderFile, hload]; rfl)⟩
      cases hs with
      | renderFile hload' _ _ =>
        rw [hload] at hload'
        cases hload'
    · have hstep : e.step (.renderFile bound load key data) =
          (e.renderCached bound key text data).map .rendered id := by
        rw [step, renderFile, hload]
      rw [hstep]
      rcases e.renderCached_cases bound key text data with ⟨r, h, hnone⟩ | ⟨t, h, hf, ht⟩
      · refine .inr ⟨fun _ t hs => ?_, .inl (by rw [h]; rfl)⟩
        cases hs with
        | renderFile hload' hf ht =>
          rw [hload] at hload'
          cases hload'
          exact hnone t hf ht
      · exact .inl ⟨key, t, .renderFile hload hf ht, by rw [h]; rfl⟩
  | configure c =>
    refine .inr ⟨fun _ _ hs => (by cases hs), ?_⟩
    rcases hm : c.markers with error | m
    · have hc : e.configure c = .error error := by rw [configure, hm]; rfl
      exact .inl (by rw [step, hc])
    · have hc : e.configure c = .ok { e with config := c, markers := m } := by
        rw [configure, hm]
        rfl
      exact .inr ⟨by rw [step, hc], .inr (.inr (by rw [step, hc]))⟩
  | removeCached key =>
    exact .inr ⟨fun _ _ hs => (by cases hs), .inr ⟨rfl, .inl ⟨key, rfl⟩⟩⟩
  | clearCache => exact .inr ⟨fun _ _ hs => (by cases hs), .inr ⟨rfl, .inr (.inl rfl)⟩⟩
  | mapContext | registerHelper | mapRules =>
    exact .inr ⟨fun _ _ hs => (by cases hs), .inr ⟨rfl, .inr (.inr rfl)⟩⟩
  | compile | execute | render | renderTemplate =>
    exact .inr ⟨fun _ _ hs => (by cases hs), .inl rfl⟩

lemma Stores.unique {key' : String} {t' : Template} (h : e.Stores op key t)
    (h' : e.Stores op key' t') : key = key' ∧ t = t' := by
  cases h with
  | precompile ht =>
    cases h' with
    | precompile ht' => exact ⟨rfl, ht.unique ht'⟩
  | getOrCompile _ ht =>
    cases h' with
    | getOrCompile _ ht' => exact ⟨rfl, ht.unique ht'⟩
  | renderCached _ ht =>
    cases h' with
    | renderCached _ ht' => exact ⟨rfl, ht.unique ht'⟩
  | renderFile hload _ ht =>
    cases h' with
    | renderFile hload' _ ht' =>
      rw [hload] at hload'
      cases hload'
      exact ⟨rfl, ht.unique ht'⟩

/-- An operation leaves alone what it does not displace. -/
lemma find?_step_of_not_displaces {key : String} (h : ¬ e.Displaces op key) :
    Entries.find? (e.step op).2.cache key = Entries.find? e.cache key := by
  rcases e.step_cases op with ⟨k, t, hs, hstep⟩ | ⟨-, hstep⟩
  · have hk : key ≠ k := by
      rintro rfl
      exact h (.inr (.inr ⟨t, hs⟩))
    rw [hstep]
    exact Entries.find?_put_of_ne hk
  · rcases hstep with hstep | ⟨-, ⟨k, rfl⟩ | rfl | hstep⟩
    · rw [hstep]
    · have hk : key ≠ k := by
        rintro rfl
        exact h (.inl rfl)
      exact Entries.find?_erase_of_ne hk
    · exact absurd (.inr (.inl rfl)) h
    · rw [hstep]

/-- What the cache has for a key after an operation. -/
lemma find?_step (e : Engine) (op : Operation) (key : String) (t : Template) :
    Entries.find? (e.step op).2.cache key = some t ↔
      e.Stores op key t ∨ (Entries.find? e.cache key = some t ∧ ¬ e.Displaces op key) := by
  have hstored {t' : Template} (hs : e.Stores op key t') :
      Entries.find? (e.step op).2.cache key = some t' := by
    rcases e.step_cases op with ⟨k, t₂, hs₂, hstep⟩ | ⟨hnone, -⟩
    · obtain ⟨rfl, rfl⟩ := hs.unique hs₂
      rw [hstep]
      exact Entries.find?_put_self ..
    · exact absurd hs (hnone key t')
  constructor
  · intro h
    by_cases hd : e.Displaces op key
    · rcases hd with rfl | rfl | ⟨t', hs⟩
      · rw [show (e.step (.removeCached key)).2.cache = Entries.erase e.cache key from rfl,
          Entries.find?_erase_self] at h
        cases h
      · cases h
      · rw [hstored hs] at h
        cases h
        exact .inl hs
    · rw [find?_step_of_not_displaces hd] at h
      exact .inr ⟨h, hd⟩
  · rintro (hs | ⟨h, hd⟩)
    · exact hstored hs
    · rw [find?_step_of_not_displaces hd, h]

/-! ### Histories -/

/-- One of the operations, run in their order, has stored the template under the key, and none of
the later ones has displaced it. -/
def Leaves (e : Engine) (ops : List Operation) (key : String) (t : Template) : Prop :=
  ∃ before op later, ops = before ++ op :: later ∧ (e.after before).Stores op key t ∧
    ∀ middle next rest, later = middle ++ next :: rest →
      ¬ (e.after (before ++ op :: middle)).Displaces next key

variable {ops : List Operation}

lemma leaves_snoc : e.Leaves (ops ++ [op]) key t ↔
    (e.after ops).Stores op key t ∨ (e.Leaves ops key t ∧ ¬ (e.after ops).Displaces op key) := by
  constructor
  · rintro ⟨before, o, later, heq, hs, hlater⟩
    -- the last operation is the one that stored, or one that did not displace
    rcases List.eq_nil_or_concat later with rfl | ⟨later, last, rfl⟩
    · obtain ⟨rfl, ho⟩ := List.append_inj' heq rfl
      cases ho
      exact .inl hs
    · have hsnoc : ops ++ [op] = (before ++ o :: later) ++ [last] := by
        simp [heq]
      obtain ⟨rfl, ho⟩ := List.append_inj' hsnoc rfl
      cases ho
      refine .inr ⟨⟨before, o, later, rfl, hs, fun middle next rest hmid => ?_⟩, ?_⟩
      · exact hlater middle next (rest ++ [op]) (by simp [hmid])
      · exact hlater later op [] (by simp)
  · rintro (hs | ⟨⟨before, o, later, rfl, hs, hlater⟩, hd⟩)
    · exact ⟨ops, op, [], rfl, hs, fun _ _ _ h => by simp at h⟩
    · refine ⟨before, o, later ++ [op], by simp, hs, fun middle next rest hmid => ?_⟩
      rcases List.eq_nil_or_concat rest with rfl | ⟨rest, last, rfl⟩
      · obtain ⟨rfl, ho⟩ := List.append_inj' hmid rfl
        cases ho
        exact hd
      · have hsnoc : later ++ [op] = (middle ++ next :: rest) ++ [last] := by
          simp [hmid]
        exact hlater middle next rest (List.append_inj' hsnoc rfl).1

/-- The cache holds what the operations have left in it. -/
lemma find?_after (h : e.cache = []) : Entries.find? (e.after ops).cache key = some t ↔
    e.Leaves ops key t := by
  induction ops using List.reverseRecOn generalizing key t with
  | nil =>
    rw [after_nil, h]
    constructor
    · rintro ⟨⟩
    · rintro ⟨before, op, later, heq, -⟩
      simp at heq
  | append_singleton ops op ih =>
    rw [after_snoc, find?_step, leaves_snoc, ih]

/-- The scanner works with the markers of the configuration. -/
def Current (e : Engine) : Prop :=
  e.markers.opening = e.config.opening ∧ e.markers.closing = e.config.closing

lemma current_of_markers {c : Config} {m : Markers} (h : c.markers = .ok m) :
    m.opening = c.opening ∧ m.closing = c.closing := by
  unfold Config.markers Markers.ofStrings? at h
  split_ifs at h
  cases h
  exact ⟨rfl, rfl⟩

lemma configure_ok {c : Config} {e' : Engine} (h : e.configure c = .ok e') : e'.Current := by
  rcases hm : c.markers with error | m
  · rw [configure, hm] at h
    cases h
  · rw [configure, hm] at h
    cases h
    exact current_of_markers hm

lemma current_ofConfig {c : Config} (h : ofConfig c = .ok e) : e.Current := by
  rcases hm : c.markers with error | m
  · rw [ofConfig, hm] at h
    cases h
  · rw [ofConfig, hm] at h
    cases h
    exact current_of_markers hm

lemma current_step (h : e.Current) (op : Operation) : (e.step op).2.Current := by
  rcases e.step_cases op with ⟨k, t, -, hstep⟩ | ⟨-, hstep | ⟨hdone, -⟩⟩
  · rw [hstep]
    exact h
  · rw [hstep]
    exact h
  · cases op with
    | configure c =>
      rcases hc : e.configure c with error | e'
      · rw [step, hc] at hdone
        cases hdone
      · rw [step, hc]
        exact configure_ok hc
    | mapContext | registerHelper | mapRules | removeCached | clearCache => exact h
    | _ => cases hdone

lemma current_after (h : e.Current) (ops : List Operation) : (e.after ops).Current := by
  induction ops using List.reverseRecOn with
  | nil => exact h
  | append_singleton ops op ih =>
    rw [after_snoc]
    exact current_step ih op

/-! ### Failures -/

/-- A failing operation leaves the engine as it is. Only a render through the cache may have stored
its template before it failed. -/
structure FailsSafely (e : Engine) (op : Operation) : Prop where
  refused : ∀ error, (e.step op).1 = .refused error → (e.step op).2 = e
  early : ∀ error, (e.step op).1.error? = some error → error.isEvaluation = false →
    (e.step op).2 = e
  evaluation : ∀ error, (e.step op).1.error? = some error → error.isEvaluation = true →
    (e.step op).2 = e ∨ ∃ key t, op.cachedKey? = some key ∧ e.Stores op key t ∧
      (e.step op).2 = e.cached key t

lemma execute_error {bound : ℕ} {data : Value} {error : TemplateError}
    (h : e.execute bound t data = some (.error error)) : error.isEvaluation = true := by
  unfold execute Template.render at h
  rcases hr : Script.run (e.tiers data) bound t.program with _ | f | text
  · rw [hr] at h
    cases h
  · rw [hr] at h
    cases h
    rfl
  · rw [hr] at h
    cases h

/-- An operation that stores a template answers with it, or with what it renders. -/
lemma outcome_of_stores (hs : e.Stores op key t) :
    (e.step op).1 = .compiled (.ok t) ∨ op.cachedKey? = some key ∧
      ∃ bound data, (e.step op).1 = .rendered ((e.cached key t).execute bound t data) := by
  have hrender {bound : ℕ} {text : String} {data : Value} (hf : Entries.find? e.cache key = none)
      (ht : e.Compiles key text t) :
      (e.renderCached bound key text data).1 = (e.cached key t).execute bound t data := by
    rcases e.renderCached_cases bound key text data with ⟨_, -, hnone⟩ | ⟨t', h, -, ht'⟩
    · exact absurd ht (hnone t hf)
    · rw [h, ht.unique ht']
  cases hs with
  | @precompile _ text _ ht =>
    rcases e.precompile_cases key text with ⟨_, -, hnone⟩ | ⟨t', h, ht'⟩
    · exact absurd ht (hnone t)
    · exact .inl (by rw [step, h, ht.unique ht']; rfl)
  | @getOrCompile _ text _ hf ht =>
    rcases e.getOrCompile_cases key text with ⟨_, -, hnone⟩ | ⟨t', h, -, ht'⟩
    · exact absurd ht (hnone t hf)
    · exact .inl (by rw [step, h, ht.unique ht']; rfl)
  | @renderCached bound _ text data _ hf ht =>
    exact .inr ⟨rfl, bound, data, congrArg Outcome.rendered (hrender hf ht)⟩
  | @renderFile bound load _ text data _ hload hf ht =>
    refine .inr ⟨rfl, bound, data, ?_⟩
    rw [step, renderFile, hload]
    exact congrArg Outcome.rendered (hrender hf ht)

lemma failsSafely_of_stores (hs : e.Stores op key t) (hstep : (e.step op).2 = e.cached key t) :
    e.FailsSafely op := by
  rcases outcome_of_stores hs with ho | ⟨hkey, bound, data, ho⟩
  · refine ⟨fun _ h => ?_, fun _ h => ?_, fun _ h => ?_⟩ <;> rw [ho] at h <;> cases h
  · have herror {error : TemplateError} (h : (e.step op).1.error? = some error) :
        error.isEvaluation = true := by
      rw [ho] at h
      rcases hr : (e.cached key t).execute bound t data with _ | error' | text
      · rw [hr] at h
        cases h
      · rw [hr] at h
        cases h
        exact execute_error hr
      · rw [hr] at h
        cases h
    refine ⟨fun _ h => ?_, fun _ h hne => ?_, fun _ _ _ => .inr ⟨key, t, hkey, hs, hstep⟩⟩
    · rw [ho] at h
      cases h
    · rw [herror h] at hne
      cases hne

lemma failsSafely (e : Engine) (op : Operation) : e.FailsSafely op := by
  rcases e.step_cases op with ⟨k, t, hs, hstep⟩ | ⟨-, hstep | ⟨hdone, -⟩⟩
  · exact failsSafely_of_stores hs hstep
  · exact ⟨fun _ _ => hstep, fun _ _ _ => hstep, fun _ _ _ => .inl hstep⟩
  · refine ⟨fun _ h => ?_, fun _ h => ?_, fun _ h => ?_⟩ <;> rw [hdone] at h <;> cases h

/-! ### The cache and its history -/

/-- **History**: in an engine that operations have made out of a new one, the scanner follows the
configuration, the cache holds for each key what the latest of them stored there, as long as it was
not displaced, and an operation that fails next changes nothing but what it stored on the way. -/
theorem cache_history (c : Config) (e : Engine) (h : ofConfig c = .ok e) (ops : List Operation) :
    (e.after ops).Current ∧
      (∀ key t, Entries.find? (e.after ops).cache key = some t ↔ e.Leaves ops key t) ∧
      ∀ next, (e.after ops).FailsSafely next := by
  have hcache : e.cache = [] := by
    rcases hm : c.markers with error | m
    · rw [ofConfig, hm] at h
      cases h
    · rw [ofConfig, hm] at h
      cases h
      rfl
  exact ⟨current_after (current_ofConfig h) ops, fun _ _ => find?_after hcache,
    fun next => failsSafely _ next⟩

/-- A new engine with the standard configuration. -/
def fresh : Engine := ⟨.standard, .standard, .standard, Helper.standard, []⟩

/-- A page is compiled, and rendered from another text with other markers and no rules. -/
def session : List Operation :=
  [.precompile "page" "<%= x %>", .configure ⟨"[[", "]]", .empty⟩, .mapRules fun _ => [],
    .renderCached 0 "page" "[[= y ]]" (.obj [("x", .str "1")])]

/-- The page is still the one of the first text. -/
theorem cache_history_session :
    ofConfig .standard = .ok fresh ∧ (fresh.after session).Current ∧
      (fresh.after session).markers.opening = "[[" ∧
      ∃ t, fresh.Leaves session "page" t ∧
        t.instructions = [.appendLiteral "", .appendEscaped ⟨"x", 1⟩, .appendLiteral ""] := by
  have hfresh : ofConfig .standard = .ok fresh := rfl
  have hcached : (Entries.find? (fresh.after session).cache "page").map (·.instructions) =
      some [.appendLiteral "", .appendEscaped ⟨"x", 1⟩, .appendLiteral ""] := by
    decide +kernel
  have hopening : (fresh.after session).markers.opening = "[[" := by
    decide +kernel
  obtain ⟨t, ht, hinstructions⟩ := Option.map_eq_some_iff.mp hcached
  obtain ⟨hcurrent, hcache, -⟩ := cache_history .standard fresh hfresh session
  exact ⟨hfresh, hcurrent, hopening, t, (hcache "page" t).mp ht, hinstructions⟩

end Engine

end Stencil
