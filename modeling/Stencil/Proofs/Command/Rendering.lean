import Stencil.Proofs.Command.Checking
import Stencil.Proofs.FileTree.Written

/-!
Rendering a template file.

A render reads its configuration, its data and its template, compiles the template and runs it. It
prints or writes only what a run that came to its end has made. So a render that fails on the way
leaves everything as it was, however much text its template has made before.
-/

namespace Stencil

/-! ### Programs that fail -/

namespace Script

variable {tiers : Tiers} {bound : ℕ} {e : EvalError} {locals : Locals} {written : String}

/-- A run of the statements fails at one of them, after those before it have written a text. -/
def FailsAt (tiers : Tiers) (bound : ℕ) (ss : List Stmt) (frame : Frame) (written : String)
    (e : EvalError) : Prop :=
  ∃ before s after locals, ss = before ++ s :: after ∧
    execTop tiers bound before frame = some (.ok ((), ⟨locals, written⟩)) ∧
    exec tiers bound s ⟨locals, written⟩ = some (.error e)

lemma execTop_cons (s : Stmt) (ss : List Stmt) : execTop tiers bound (s :: ss) =
    exec tiers bound s >>= fun _ => execTop tiers bound ss := by
  rw [execTop, discard, map_const, Function.comp_apply, map_eq_pure_bind, bind_assoc]
  rfl

lemma execTop_error_iff {ss : List Stmt} {frame : Frame} :
    execTop tiers bound ss frame = some (.error e) ↔
      ∃ written, FailsAt tiers bound ss frame written e := by
  induction ss generalizing frame with
  | nil =>
    constructor
    · intro h
      cases h
    · rintro ⟨-, before, s, after, -, hsplit, -⟩
      cases before <;> cases hsplit
  | cons s ss ih =>
    rw [execTop_cons, run_bind_error]
    constructor
    · rintro (h | ⟨flow, mid, hs, h⟩)
      · exact ⟨frame.out, [], s, ss, frame.locals, rfl, rfl, h⟩
      · obtain ⟨written, before, s', after, locals, rfl, hbefore, hs'⟩ := ih.mp h
        exact ⟨written, s :: before, s', after, locals, rfl,
          (execTop_cons s before).symm ▸ run_bind_ok.mpr ⟨flow, mid, hs, hbefore⟩, hs'⟩
    · rintro ⟨written, before, s', after, locals, hsplit, hbefore, hs'⟩
      cases before with
      | nil =>
        cases hsplit
        cases hbefore
        exact .inl hs'
      | cons s₀ before =>
        cases hsplit
        rw [execTop_cons] at hbefore
        obtain ⟨flow, mid, hs, hbefore⟩ := run_bind_ok.mp hbefore
        exact .inr ⟨flow, mid, hs, ih.mpr ⟨written, before, s', after, locals, rfl, hbefore, hs'⟩⟩

lemma run_error_iff {p : Program} : run tiers bound p = some (.error e) ↔
    ∃ written, FailsAt tiers bound p.body ⟨[], ""⟩ written e := by
  rw [← execTop_error_iff, run]
  rcases h : (execTop tiers bound p.body ⟨[], ""⟩ : Option (Except EvalError (Unit × Frame)))
    with _ | e' | ⟨⟨⟩, frame⟩
  · exact ⟨nofun, nofun⟩
  · constructor <;> intro heq <;> cases heq <;> rfl
  · exact ⟨nofun, nofun⟩

end Script

namespace Command

variable {files after : FileTree} {bound : ℕ} {args : List String}
  {environment home named data output : Option String} {template text report : String} {c : Config}
  {v : Value} {t : Template}

/-! ### What a render comes to -/

/-- What a render has read: a configuration whose markers are not empty, and data. -/
structure Prepared (files : FileTree) (home named data : Option String) (c : Config) (v : Value) :
    Prop where
  config : config files home named = .ok c
  data : readData files data = .ok v
  markers : c.opening ≠ "" ∧ c.closing ≠ ""

/-- What the markers and the rules of a configuration make of the text of a template. -/
def Prepared.compile (h : Prepared files home named data c v) (template source : String) :
    Except TemplateError Template :=
  Template.compile ⟨c.opening, c.closing, h.markers.1, h.markers.2⟩ .standard template source

/-- The names that the template of a render sees. -/
def tiers (c : Config) (v : Value) : Tiers := ⟨v, c.context, Helper.standard⟩

/-- Why a render has no text to hand out, and what it reports. -/
inductive Fails (files : FileTree) (bound : ℕ) (home named : Option String) (template : String)
    (data : Option String) : String → Prop
  | configuration {path : String} {e : ConfigError} : named = some path →
      Config.load files path = .error e → Fails files bound home named template data e.report
  | data {c : Config} {message : String} : config files home named = .ok c →
      readData files data = .error message → Fails files bound home named template data message
  | markers {c : Config} {v : Value} : config files home named = .ok c →
      readData files data = .ok v → c.opening = "" ∨ c.closing = "" →
      Fails files bound home named template data ConfigError.emptyMarker.report
  | unreadable {c : Config} {v : Value} {e : FileError} : Prepared files home named data c v →
      files.read template = .error e →
      Fails files bound home named template data (TemplateError.load template (.file e)).report
  | malformed {c : Config} {v : Value} {source : String} {e : TemplateError}
      (h : Prepared files home named data c v) : files.read template = .ok source →
      h.compile template source = .error e →
      Fails files bound home named template data e.report
  | evaluation {c : Config} {v : Value} {source written : String} {t : Template} {e : EvalError}
      (h : Prepared files home named data c v) : files.read template = .ok source →
      h.compile template source = .ok t →
      Script.FailsAt (tiers c v) bound t.program.body ⟨[], ""⟩ written e →
      Fails files bound home named template data (TemplateError.evaluation template e).report

/-- The full text that a template renders to. -/
def Renders (files : FileTree) (bound : ℕ) (home named : Option String) (template : String)
    (data : Option String) (text : String) : Prop :=
  ∃ c v source t, ∃ h : Prepared files home named data c v, files.read template = .ok source ∧
    h.compile template source = .ok t ∧
    Script.run (tiers c v) bound t.program = some (.ok text)

/-! ### Stages -/

lemma config_error_iff {e : ConfigError} : config files home named = .error e ↔
    ∃ path, named = some path ∧ Config.load files path = .error e := by
  cases named with
  | some path => simp [config]
  | none =>
    simp only [config, reduceCtorEq, false_and, exists_false, iff_false]
    split
    · exact nofun
    · split <;> exact nofun

lemma ofConfig_emptyMarker (h : ¬ (c.opening ≠ "" ∧ c.closing ≠ "")) :
    Engine.ofConfig c = .error .emptyMarker := by
  unfold Engine.ofConfig Config.markers Markers.ofStrings?
  rw [dif_neg h]
  rfl

lemma run_render (hparse : parse args environment = .ok ⟨named, .render template data output⟩) :
    run files bound args environment home =
      match config files home named with
      | .error e => some (failed files e.report)
      | .ok c => render files bound c template data output := by
  rw [run, hparse]
  rfl

/-- A render whose configuration and data are there comes to what its template comes to. -/
lemma Prepared.render_eq (h : Prepared files home named data c v) (bound : ℕ) (template : String)
    (output : Option String) :
    render files bound c template data output =
      match files.read template with
      | .error e => some (failed files (TemplateError.load template (.file e)).report)
      | .ok source =>
        match h.compile template source with
        | .error e => some (failed files e.report)
        | .ok t => (t.render (tiers c v) bound).map (handOut files template output) := by
  rw [Command.render_eq h.markers h.data]
  rcases hread : files.read template with e | source
  · rw [rendered_of_unreadable hread]
    rfl
  · rw [rendered_of_readable hread rfl]
    have hcompile : (engineOf c h.markers).compileNamed template source =
        h.compile template source := rfl
    rw [hcompile]
    dsimp only
    rcases h.compile template source with e | t <;> rfl

lemma Prepared.run_eq (h : Prepared files home named data c v)
    (hparse : parse args environment = .ok ⟨named, .render template data output⟩) :
    run files bound args environment home =
      match files.read template with
      | .error e => some (failed files (TemplateError.load template (.file e)).report)
      | .ok source =>
        match h.compile template source with
        | .error e => some (failed files e.report)
        | .ok t => (t.render (tiers c v) bound).map (handOut files template output) := by
  rw [run_render hparse, h.config]
  exact h.render_eq bound template output

/-- Once the template is compiled, the run is that of the template. -/
lemma Prepared.run_compiled {source : String} (h : Prepared files home named data c v)
    (hparse : parse args environment = .ok ⟨named, .render template data output⟩)
    (hread : files.read template = .ok source) (hcompile : h.compile template source = .ok t) :
    run files bound args environment home =
      (t.render (tiers c v) bound).map (handOut files template output) := by
  rw [h.run_eq hparse, hread]
  dsimp only
  rw [hcompile]

/-! ### Failures and texts -/

lemma compile_name {m : Markers} {rules : Rules} {source : String}
    (h : Template.compile m rules template source = .ok t) : t.name = template := by
  unfold Template.compile at h
  split at h
  · cases h
  · split at h
    · cases h
    · cases h
      rfl

/-- **A render that fails leaves no trace.** -/
lemma Fails.run_eq (h : Fails files bound home named template data report)
    (hparse : parse args environment = .ok ⟨named, .render template data output⟩) :
    run files bound args environment home = some (failed files report) := by
  cases h with
  | configuration hnamed hload =>
    rw [run_render hparse, config_error_iff.mpr ⟨_, hnamed, hload⟩]
  | data hconfig hdata =>
    rw [run_render hparse, hconfig]
    simp only [render, renderText, hdata]
    rfl
  | markers hconfig hdata hempty =>
    have hmarkers : ¬ (_ ≠ "" ∧ _ ≠ "") := not_and_or.mpr (hempty.imp not_not_intro not_not_intro)
    rw [run_render hparse, hconfig]
    simp only [render, renderText, hdata, ofConfig_emptyMarker hmarkers]
    rfl
  | unreadable hprepared hread => rw [hprepared.run_eq hparse, hread]
  | malformed hprepared hread hcompile =>
    rw [hprepared.run_eq hparse, hread]
    dsimp only
    rw [hcompile]
  | evaluation hprepared hread hcompile hfails =>
    have hrun := Script.run_error_iff.mpr ⟨_, hfails⟩
    rw [hprepared.run_compiled hparse hread hcompile, Template.render, hrun,
      ← compile_name hcompile]
    rfl

lemma Renders.run_eq (h : Renders files bound home named template data text)
    (hparse : parse args environment = .ok ⟨named, .render template data output⟩) :
    run files bound args environment home = some (deliver files template text output) := by
  obtain ⟨c, v, source, t, hprepared, hread, hcompile, hrun⟩ := h
  rw [hprepared.run_compiled hparse hread hcompile, Template.render, hrun]
  rfl

/-- A run that comes to its end has failed or has made a text. -/
lemma fails_or_renders {out : Outcome}
    (hparse : parse args environment = .ok ⟨named, .render template data output⟩)
    (h : run files bound args environment home = some out) :
    (∃ report, Fails files bound home named template data report) ∨
      ∃ text, Renders files bound home named template data text := by
  rcases hconfig : config files home named with e | c
  · obtain ⟨path, hnamed, hload⟩ := config_error_iff.mp hconfig
    exact .inl ⟨_, .configuration hnamed hload⟩
  rcases hdata : readData files data with message | v
  · exact .inl ⟨_, .data hconfig hdata⟩
  by_cases hmarkers : c.opening ≠ "" ∧ c.closing ≠ ""
  swap
  · have hempty : c.opening = "" ∨ c.closing = "" :=
      (not_and_or.mp hmarkers).imp of_not_not of_not_not
    exact .inl ⟨_, .markers hconfig hdata hempty⟩
  have hprepared : Prepared files home named data c v := ⟨hconfig, hdata, hmarkers⟩
  rcases hread : files.read template with e | source
  · exact .inl ⟨_, .unreadable hprepared hread⟩
  rcases hcompile : hprepared.compile template source with e | t
  · exact .inl ⟨_, .malformed hprepared hread hcompile⟩
  rw [hprepared.run_compiled hparse hread hcompile, Template.render] at h
  rcases hrun : Script.run (tiers c v) bound t.program with _ | e | text
  · rw [hrun] at h
    cases h
  · obtain ⟨written, hfails⟩ := Script.run_error_iff.mp hrun
    exact .inl ⟨_, .evaluation hprepared hread hcompile hfails⟩
  · exact .inr ⟨text, c, v, source, t, hprepared, hread, hcompile, hrun⟩

/-! ### Traces -/

/-- How a text is handed out: it is printed, or it is written to the output file, and nothing else
is written. An output file that cannot be written is left alone. -/
inductive Delivers (files : FileTree) (template text : String) : Option String → Outcome → Prop
  | printed : Delivers files template text none ⟨0, text, "", files⟩
  | written {path : String} {names : List String} {after : FileTree} :
      files.Wrote names text.toUTF8 after → after.resolve path = .ok (.file names text.toUTF8) →
      after.read path = .ok text → Delivers files template text (some path)
        ⟨0, line ("✓ Rendered " ++ template ++ " to " ++ path), "", after⟩
  | refused {path : String} {e : FileError} : files.write path text = .error e →
      Delivers files template text (some path)
        (failed files ("failed to write " ++ path ++ ": " ++ e.message))

lemma delivers_deliver (files : FileTree) (template text : String) (output : Option String) :
    Delivers files template text output (deliver files template text output) := by
  cases output with
  | none => exact .printed
  | some path =>
    rcases hwrite : files.write path text with e | after
    · rw [deliver, hwrite]
      exact .refused hwrite
    · obtain ⟨names, hwrote, hresolve⟩ := FileTree.wrote_write hwrite
      rw [deliver, hwrite]
      exact .written hwrote hresolve (FileTree.read_of_resolve hresolve)

/-- **A render leaves its text or nothing.** -/
theorem render_leaves_no_trace
    (hparse : parse args environment = .ok ⟨named, .render template data output⟩) :
    (∀ report, Fails files bound home named template data report →
      ∃ out, run files bound args environment home = some out ∧ out.code = 1 ∧ out.stdout = "" ∧
        out.files = files ∧ files.changes out.files = []) ∧
    (∀ text, Renders files bound home named template data text →
      ∃ out, run files bound args environment home = some out ∧
        Delivers files template text output out) ∧
    ∀ out, run files bound args environment home = some out →
      (∃ report, Fails files bound home named template data report) ∨
        ∃ text, Renders files bound home named template data text ∧
          Delivers files template text output out := by
  refine ⟨fun report h => ⟨_, h.run_eq hparse, rfl, rfl, rfl, ?_⟩,
    fun text h => ⟨_, h.run_eq hparse, delivers_deliver files template text output⟩,
    fun out h => ?_⟩
  · exact List.filter_eq_nil_iff.mpr fun f hf hchanged =>
      FileTree.not_mem_changes hf (List.mem_filter.mpr ⟨hf, hchanged⟩)
  · rcases fails_or_renders hparse h with hfails | ⟨text, hrenders⟩
    · exact .inl hfails
    · rw [hrenders.run_eq hparse] at h
      cases h
      exact .inr ⟨text, hrenders, delivers_deliver files template text output⟩

/-- A template that fails when it has made some text, and a file from an earlier render. -/
def shelf : FileTree where
  here := ["work"]
  directories := []
  files := [(["work", "t"], "ab<%= x %>".toUTF8), (["work", "c"], "".toUTF8),
    (["work", "o"], "old".toUTF8)]

/-- What the template of the shelf compiles to. -/
def late : Template where
  name := "t"
  instructions := [.appendLiteral "ab", .appendEscaped ⟨"x", 1⟩, .appendLiteral ""]
  program := ⟨[.output (.literal "ab"), .output (.escaped (.ident "x")), .output (.literal "")]⟩

lemma compile_late : Template.compile .standard .standard "t" "ab<%= x %>" = .ok late := by
  have hscan : Markers.standard.scan "ab<%= x %>" =
      [.literal "ab", .tag ⟨"=", "x", 1⟩, .literal ""] := by decide +kernel
  have hgenerate : Instruction.generate .standard (Markers.standard.scan "ab<%= x %>") =
      .ok late.instructions := by
    rw [hscan]
    rfl
  have hx : Script.parseExpression "x" 1 = .ok (.ident "x") := by
    have htokens : Script.tokenize "x" 1 = .ok [⟨.ident "x", 1⟩] := by decide +kernel
    exact except_bind_ok.mpr ⟨_, htokens, rfl⟩
  have hprogram : Script.parseProgram late.instructions = .ok late.program := by
    simp only [Script.parseProgram, late, Script.itemsFrom, hx]
    rfl
  rw [Template.compile, hgenerate]
  dsimp only
  rw [hprogram]
  rfl

/-- The template writes its first text and then looks up a name that stands for nothing. -/
lemma fails_shelf : Fails shelf 0 none (some "c") "t" none
    (TemplateError.evaluation "t" (.undefined "x")).report := by
  have hconfig : config shelf none (some "c") = .ok .standard := by
    have hread : shelf.read "c" = .ok "" := by cbv
    have htoml : Config.ofToml? "" = some .standard := by cbv
    simp only [config, Config.load, hread, htoml]
  have hprepared : Prepared shelf none (some "c") none .standard (.obj []) :=
    ⟨hconfig, rfl, by decide⟩
  have hread : shelf.read "t" = .ok "ab<%= x %>" := by cbv
  have hfails : Script.FailsAt (tiers .standard (.obj [])) 0 late.program.body ⟨[], ""⟩ "ab"
      (.undefined "x") :=
    ⟨[.output (.literal "ab")], .output (.escaped (.ident "x")), [.output (.literal "")], [],
      rfl, rfl, rfl⟩
  exact .evaluation hprepared hread compile_late hfails

/-- The file from the earlier render is still there, and nothing is printed. -/
theorem render_leaves_no_trace_late :
    parse ["render", "t", "-o", "o", "--config", "c"] none =
        .ok ⟨some "c", .render "t" none (some "o")⟩ ∧
      ∃ out, run shelf 0 ["render", "t", "-o", "o", "--config", "c"] none none = some out ∧
        out.code = 1 ∧ out.stdout = "" ∧ out.files = shelf ∧ shelf.changes out.files = [] := by
  have hparse : parse ["render", "t", "-o", "o", "--config", "c"] none =
      .ok ⟨some "c", .render "t" none (some "o")⟩ := by decide +kernel
  exact ⟨hparse, (render_leaves_no_trace hparse).1 _ fails_shelf⟩

end Command

end Stencil
