import Stencil.Proofs.Engine.History

/-!
The ways to a rendered template.

A text may be rendered directly, compiled and executed, stored under a key before it is rendered, or
come from a loader. The outcome is the same in all of these ways, apart from the name in its error:
what is compiled does not depend on the name, and a run does not depend on where the template has
been in between.
-/

namespace Stencil

/-! ### Names in errors -/

/-- The error of a template of another name. An error about a key is none of a template. -/
def TemplateError.underName (name : String) : TemplateError → TemplateError
  | .unknownTag opening marker _ => .unknownTag opening marker name
  | .malformed _ fault => .malformed name fault
  | .evaluation _ e => .evaluation name e
  | .notFound key => .notFound key
  | .load key e => .load key e

/-- The outcome of a render for a template of another name. -/
def Rendered.underName (name : String) (r : Rendered) : Rendered :=
  Option.map (Except.mapError (TemplateError.underName name)) r

namespace Template

variable {name : String}

/-- What is compiled depends on the name in its name only. -/
lemma compile_underName (markers : Markers) (rules : Rules) (name name' text : String) :
    compile markers rules name' text =
      ((compile markers rules name text).map fun t => { t with name := name' }).mapError
        (TemplateError.underName name') := by
  unfold compile
  rcases Instruction.generate rules (markers.scan text) with u | instructions
  · rfl
  · dsimp only
    rcases Script.parseProgram instructions with fault | program <;> rfl

/-- A run depends on the name of the template in the name of its error only. -/
lemma render_underName (t : Template) (name : String) (tiers : Tiers) (bound : ℕ) :
    { t with name := name }.render tiers bound =
      Rendered.underName name (t.render tiers bound) := by
  unfold render
  rcases Script.run tiers bound t.program with _ | error | text <;> rfl

end Template

namespace Engine

variable {e : Engine} {key text : String}

/-- A text that is compiled under a name renders as it does without one. -/
lemma executeCompiled_compileNamed (e : Engine) (bound : ℕ) (name text : String) (data : Value) :
    e.executeCompiled bound (e.compileNamed name text) data =
      Rendered.underName name (e.render bound text data) := by
  have hcompile := Template.compile_underName e.markers e.rules Template.anonymous name text
  rw [render, compile, compileNamed, compileNamed, hcompile]
  rcases Template.compile e.markers e.rules Template.anonymous text with error | t
  · rfl
  · exact t.render_underName name _ bound

lemma renderTemplate_of_find? {t : Template} (h : Entries.find? e.cache key = some t) (bound : ℕ)
    (data : Value) : e.renderTemplate bound key data = e.execute bound t data := by
  rw [renderTemplate, h]

/-! ### The ways -/

/-- Stores a text under a key and renders what is stored there, unless the text does not compile. -/
def precompileThenRender (e : Engine) (bound : ℕ) (key text : String) (data : Value) : Rendered :=
  match e.precompile key text with
  | (.error error, _) => some (.error error)
  | (.ok _, e') => e'.renderTemplate bound key data

/-- The outcome of a render from the cache: that of the text where the text compiles. There is
nothing in the cache otherwise. -/
def renderStored (e : Engine) (bound : ℕ) (key text : String) (data : Value) : Rendered :=
  if (e.compile text).isOk then Rendered.underName key (e.render bound text data)
  else some (.error (.notFound key))

/-- All ways to render a text have the same outcome, up to the name of the template in its error,
and so have later renders under the key, whatever their data. -/
structure PathsAgree (e : Engine) (bound : ℕ) (load : Loader) (key text : String) (data : Value) :
    Prop where
  execute : e.executeCompiled bound (e.compile text) data = e.render bound text data
  precompile : e.precompileThenRender bound key text data =
    Rendered.underName key (e.render bound text data)
  cached : (e.renderCached bound key text data).1 =
    Rendered.underName key (e.render bound text data)
  file : (e.renderFile bound load key data).1 = Rendered.underName key (e.render bound text data)
  again : ∀ e' ∈ [(e.precompile key text).2, (e.renderCached bound key text data).2,
      (e.renderFile bound load key data).2], ∀ bound' data',
    (e'.renderCached bound' key text data').1 =
        Rendered.underName key (e.render bound' text data') ∧
      e'.renderTemplate bound' key data' = e.renderStored bound' key text data'

lemma compile_isOk (e : Engine) (key text : String) :
    (e.compile text).isOk = (e.compileNamed key text).isOk := by
  rw [compile, compileNamed, compileNamed,
    Template.compile_underName e.markers e.rules Template.anonymous key text]
  rcases Template.compile e.markers e.rules Template.anonymous text with error | t <;> rfl

/-- A key that is absent is compiled as if the text were stored under it. -/
lemma renderCached_of_absent (h : Entries.find? e.cache key = none) (bound : ℕ) (text : String)
    (data : Value) : e.renderCached bound key text data =
      (Rendered.underName key (e.render bound text data), (e.precompile key text).2) := by
  rw [renderCached, getOrCompile_of_absent h, ← executeCompiled_compileNamed, precompile]
  rcases e.compileNamed key text with error | t <;> rfl

/-- What comes after a text has been stored under a key. -/
lemma renders_after_precompile (h : Entries.find? e.cache key = none) (bound : ℕ) (text : String)
    (data : Value) :
    ((e.precompile key text).2.renderCached bound key text data).1 =
        Rendered.underName key (e.render bound text data) ∧
      (e.precompile key text).2.renderTemplate bound key data =
        e.renderStored bound key text data := by
  have hnamed := e.executeCompiled_compileNamed bound key text data
  rcases hc : e.compileNamed key text with error | t
  · -- nothing was stored, so the key is still absent
    have hstored : (e.precompile key text).2 = e := by rw [precompile, hc]
    rw [hstored, renderCached_of_absent h, renderTemplate, h, renderStored, e.compile_isOk key, hc]
    exact ⟨rfl, rfl⟩
  · have hstored : (e.precompile key text).2 = e.cached key t := by
      rw [precompile, hc]
      rfl
    have hfound : Entries.find? (e.cached key t).cache key = some t := Entries.find?_put_self ..
    rw [hc] at hnamed
    rw [hstored, renderCached, getOrCompile_of_find? hfound,
      renderTemplate_of_find? hfound, renderStored,
      e.compile_isOk key, hc, ← hnamed]
    exact ⟨rfl, rfl⟩

/-- **All ways lead to the same outcome**: a text is rendered alike directly, after it is compiled,
after it is stored under a key that is absent, through the cache and from a loader, up to the name
in its error. So are later renders under that key, as long as there is a template to be stored. -/
theorem render_paths_agree (e : Engine) (bound : ℕ) (load : Loader) (key text : String)
    (data : Value) (habsent : Entries.find? e.cache key = none) (hload : load key = .ok text) :
    e.PathsAgree bound load key text data := by
  have hcached := renderCached_of_absent habsent bound text data
  have hfile : e.renderFile bound load key data = e.renderCached bound key text data := by
    rw [renderFile, hload]
  refine ⟨rfl, ?_, by rw [hcached], by rw [hfile, hcached], fun e' he' bound' data' => ?_⟩
  · rw [precompileThenRender, ← executeCompiled_compileNamed]
    rcases hc : e.compileNamed key text with error | t
    · rw [precompile, hc]
      rfl
    · rw [precompile, hc]
      exact renderTemplate_of_find? (Entries.find?_put_self ..) bound data
  · rw [hfile, hcached] at he'
    have hstored : e' = (e.precompile key text).2 := by simpa using he'
    rw [hstored]
    exact renders_after_precompile habsent bound' text data'

theorem render_paths_agree_page :
    Entries.find? fresh.cache "page" = none ∧
      Loader.ofEntries [("page", "<%= x %>, <%= y.z %>")] "page" = .ok "<%= x %>, <%= y.z %>" ∧
      fresh.PathsAgree 0 (Loader.ofEntries [("page", "<%= x %>, <%= y.z %>")]) "page"
        "<%= x %>, <%= y.z %>" (.obj [("x", .str "1")]) :=
  ⟨rfl, rfl, render_paths_agree fresh 0 _ "page" _ _ rfl rfl⟩

/-- A text that does not compile leaves nothing under its key. A render from the cache fails then,
but not as the text does. -/
theorem renderTemplate_uncompiled :
    Entries.find? fresh.cache "page" = none ∧
      (fresh.renderCached 0 "page" "<%! note %>" .null).1 =
        some (.error (.unknownTag "<%" "!" "page")) ∧
      (fresh.renderCached 0 "page" "<%! note %>" .null).2.renderTemplate 0 "page" .null =
        some (.error (.notFound "page")) ∧
      ∀ name, Rendered.underName name (some (.error (.notFound "page"))) ≠
        Rendered.underName name (some (.error (.unknownTag "<%" "!" "page"))) := by
  refine ⟨rfl, by decide +kernel, by decide +kernel, fun name h => ?_⟩
  simp [Rendered.underName, Except.mapError, TemplateError.underName] at h

end Engine

end Stencil
