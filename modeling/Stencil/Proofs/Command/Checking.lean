import Mathlib
import Stencil.Command
import Stencil.Proofs.Engine.Paths

/-!
Checking templates.

A check gives a verdict on each template and goes on to the next one with what it has compiled in
its cache. The verdict depends on the file and on the configuration alone, and is that of a render:
a template passes when a render of it finds a text and compiles it.
-/

namespace Stencil

/-! ### Text without control characters -/

namespace Text

variable {cs : List Char}

/-- Outside escape sequences a text is shown up to its first control character. -/
lemma visibleFrom_shown (h : ∀ c ∈ cs, isShown c = true) (shown : Bool) :
    visibleFrom shown .outside cs = cs := by
  induction cs generalizing shown with
  | nil => rfl
  | cons c cs ih =>
    obtain ⟨hc, hcs⟩ := List.forall_mem_cons.mp h
    have hshown : (if shown then isShown c else EscapeState.outside.shows c) = true := by
      cases shown <;> exact hc
    have hstate : (if c.toNat < 0x80 then EscapeState.outside else .outside) = .outside := by
      split <;> rfl
    rw [visibleFrom, if_pos hshown, hstate, ih hcs]

/-- There is no control character in the text but white space. -/
def Shown (s : String) : Prop := ∀ c ∈ s.toList, isShown c = true

instance (s : String) : Decidable (Shown s) := List.decidableBAll _ _

lemma visible_shown {s : String} (h : Shown s) : visible s = s := by
  rw [visible, visibleFrom_shown h, String.ofList_toList]

lemma Shown.append {s t : String} (hs : Shown s) (ht : Shown t) : Shown (s ++ t) := by
  intro c hc
  rw [String.toList_append] at hc
  exact (List.mem_append.mp hc).elim (hs c) (ht c)

lemma shown_repr (n : ℕ) : Shown n.repr := by
  intro c hc
  have hmem : c ∈ Nat.toDigits 10 n := by simpa [Nat.repr] using hc
  have hdigit := Nat.isDigit_of_mem_toDigits (by omega) (by omega) hmem
  rw [Char.isDigit, Bool.and_eq_true, decide_eq_true_eq, decide_eq_true_eq] at hdigit
  have hlow : 48 ≤ c.toNat := hdigit.1
  have hhigh : c.toNat ≤ 57 := hdigit.2
  have hrange : 0x20 ≤ c.toNat ∧ c.toNat ≠ 0x7f := by omega
  simp [isShown, hrange]

end Text

/-! ### Failures before the run of a template -/

/-- There was no text to compile, or it did not compile. -/
def TemplateError.isEarly : TemplateError → Bool
  | .load .. => true
  | e => e.isCompileError

lemma TemplateError.isEarly_of_isCompileError {e : TemplateError} (h : e.isCompileError = true) :
    e.isEarly = true := by
  cases e with
  | load => rfl
  | unknownTag | malformed | notFound | evaluation => exact h

/-- A render that fails before its template runs. -/
def Rendered.FailsEarly (r : Rendered) : Prop := ∃ e, r = some (.error e) ∧ e.isEarly = true

namespace Template

lemma compile_error {markers : Markers} {rules : Rules} {name text : String} {e : TemplateError}
    (h : compile markers rules name text = .error e) : e.isCompileError = true := by
  unfold compile at h
  split at h
  · cases h
    rfl
  · split at h
    · cases h
      rfl
    · cases h

end Template

namespace Engine

variable {e : Engine} {bound : ℕ} {t : Template} {data : Value}

/-- What runs has compiled. -/
lemma not_failsEarly_execute : ¬ Rendered.FailsEarly (e.execute bound t data) := by
  rintro ⟨error, herror, hearly⟩
  have heval := execute_error herror
  cases error with
  | evaluation => cases hearly
  | unknownTag | malformed | notFound | load => cases heval

end Engine

namespace Command

variable {files : FileTree} {c : Config} {engine : Engine} {path : String} {listing : Bool}

/-- The engine of a configuration whose markers are not empty. -/
def engineOf (c : Config) (h : c.opening ≠ "" ∧ c.closing ≠ "") : Engine :=
  ⟨c, ⟨c.opening, c.closing, h.1, h.2⟩, .standard, Helper.standard, []⟩

lemma ofConfig_eq (h : c.opening ≠ "" ∧ c.closing ≠ "") :
    Engine.ofConfig c = .ok (engineOf c h) := by
  unfold Engine.ofConfig Config.markers Markers.ofStrings?
  rw [dif_pos h]
  rfl

/-! ### Verdicts -/

/-- The verdict on a template file: what it compiles to with the markers and the rules, or what to
report. -/
def verdict (files : FileTree) (markers : Markers) (rules : Rules) (path : String) :
    Except String Template :=
  match files.read path with
  | .error e => .error ("failed to read " ++ path ++ ": " ++ e.message)
  | .ok text => (Template.compile markers rules path text).mapError TemplateError.report

lemma checkFile_fst (files : FileTree) (engine : Engine) (path : String) :
    (checkFile files engine path).1 = verdict files engine.markers engine.rules path := by
  unfold checkFile verdict
  rcases files.read path with e | text
  · rfl
  · dsimp only
    unfold Engine.precompile Engine.compileNamed
    rcases Template.compile engine.markers engine.rules path text with e | t <;> rfl

/-- A check changes nothing of the engine but what is in its cache. -/
lemma checkFile_snd (files : FileTree) (engine : Engine) (path : String) :
    (checkFile files engine path).2.markers = engine.markers ∧
      (checkFile files engine path).2.rules = engine.rules := by
  unfold checkFile
  rcases files.read path with e | text
  · exact ⟨rfl, rfl⟩
  · dsimp only
    rcases engine.precompile_cases path text with ⟨_, h, -⟩ | ⟨_, h, -⟩ <;> rw [h] <;>
      exact ⟨rfl, rfl⟩

/-- How many of the templates do not pass. -/
def failures (verdict : String → Except String Template) (templates : List String) : ℕ :=
  templates.countP fun path => !(verdict path).isOk

lemma statuses_cons (files : FileTree) (listing : Bool) (engine : Engine) (path : String)
    (templates : List String) :
    statuses files listing engine (path :: templates) =
      (status path listing (checkFile files engine path).1 ++
          (statuses files listing (checkFile files engine path).2 templates).1,
        (statuses files listing (checkFile files engine path).2 templates).2 +
          if (checkFile files engine path).1.isOk then 0 else 1) := rfl

/-- The verdict on a template does not depend on those before it. -/
lemma statuses_eq (files : FileTree) (listing : Bool) (engine : Engine) (templates : List String) :
    statuses files listing engine templates =
      (String.join (templates.map fun path =>
          status path listing (verdict files engine.markers engine.rules path)),
        failures (verdict files engine.markers engine.rules) templates) := by
  induction templates generalizing engine with
  | nil => rfl
  | cons path templates ih =>
    obtain ⟨hmarkers, hrules⟩ := checkFile_snd files engine path
    rw [statuses_cons, ih, hmarkers, hrules, checkFile_fst, failures, failures, List.countP_cons,
      List.map_cons, String.join_cons]
    congr 2
    cases (verdict files engine.markers engine.rules path).isOk <;> rfl

lemma failures_eq_zero {verdict : String → Except String Template} {templates : List String} :
    failures verdict templates = 0 ↔ ∀ path ∈ templates, (verdict path).isOk = true := by
  rw [failures, List.countP_eq_zero]
  simp

/-! ### Renders -/

/-- What the render of a template file comes to, before it is reported or handed out. -/
def rendered (files : FileTree) (bound : ℕ) (engine : Engine) (path : String) (data : Value) :
    Rendered :=
  (engine.renderFile bound (fun key => (files.read key).mapError .file) path data).1

/-- The run that hands out a rendered text, or reports why there is none. -/
def handOut (files : FileTree) (path : String) (output : Option String) :
    Except TemplateError String → Outcome
  | .ok text => deliver files path text output
  | .error e => failed files e.report

lemma render_eq (h : c.opening ≠ "" ∧ c.closing ≠ "") {data : Option String} {v : Value}
    (hdata : readData files data = .ok v) (bound : ℕ) (path : String) (output : Option String) :
    render files bound c path data output =
      (rendered files bound (engineOf c h) path v).map (handOut files path output) := by
  rw [render, renderText, hdata]
  dsimp only
  rw [ofConfig_eq h]
  dsimp only
  rw [rendered, Option.map_map]
  congr 1
  funext r
  rcases r with e | text <;> rfl

lemma rendered_of_unreadable {error : FileError} (h : files.read path = .error error) (bound : ℕ)
    (v : Value) :
    rendered files bound engine path v = some (.error (.load path (.file error))) := by
  rw [rendered, Engine.renderFile, h]
  rfl

lemma rendered_of_readable {text : String} (h : files.read path = .ok text)
    (habsent : Entries.find? engine.cache path = none) (bound : ℕ) (v : Value) :
    rendered files bound engine path v =
      engine.executeCompiled bound (engine.compileNamed path text) v := by
  rw [rendered, Engine.renderFile, h]
  dsimp only [Except.mapError]
  rw [Engine.renderCached_of_absent habsent, Engine.executeCompiled_compileNamed]

/-- **A template passes when a render of it comes to run.** -/
lemma verdict_isOk_iff (habsent : Entries.find? engine.cache path = none) (bound : ℕ) (v : Value) :
    (verdict files engine.markers engine.rules path).isOk = true ↔
      (∃ text, files.read path = .ok text) ∧
        ¬ Rendered.FailsEarly (rendered files bound engine path v) := by
  rcases hread : files.read path with error | text
  · rw [verdict, hread]
    constructor
    · intro hok
      cases hok
    · rintro ⟨⟨text, htext⟩, -⟩
      cases htext
  · rw [verdict, hread, rendered_of_readable hread habsent, Engine.compileNamed]
    dsimp only
    rcases hc : Template.compile engine.markers engine.rules path text with e | t
    · have hearly := TemplateError.isEarly_of_isCompileError (Template.compile_error hc)
      constructor
      · intro hok
        cases hok
      · rintro ⟨-, hnot⟩
        exact (hnot ⟨e, rfl, hearly⟩).elim
    · exact ⟨fun _ => ⟨⟨text, rfl⟩, Engine.not_failsEarly_execute⟩, fun _ => rfl⟩

/-- What is reported of a template that does not compile is what its render fails with. -/
lemma verdict_of_compile_error (habsent : Entries.find? engine.cache path = none) {bound : ℕ}
    {v : Value} {e : TemplateError} (he : e.isCompileError = true)
    (h : rendered files bound engine path v = some (.error e)) :
    verdict files engine.markers engine.rules path = .error e.report := by
  rcases hread : files.read path with error | text
  · rw [rendered_of_unreadable hread] at h
    cases h
    cases he
  · rw [rendered_of_readable hread habsent, Engine.compileNamed] at h
    rw [verdict, hread]
    dsimp only
    rcases hc : Template.compile engine.markers engine.rules path text with e' | t
    · rw [hc] at h
      cases h
      rfl
    · rw [hc] at h
      exact absurd ⟨e, h, TemplateError.isEarly_of_isCompileError he⟩ Engine.not_failsEarly_execute

/-! ### The report of a check -/

/-- What is said of a template, as a line. -/
def statusLine (path : String) : Except String Template → String
  | .ok _ => "  ✓ " ++ path ++ "\n"
  | .error message => "  ✗ " ++ path ++ ": " ++ message ++ "\n"

lemma status_shown {path : String} {verdict : Except String Template}
    (h : Text.Shown (statusLine path verdict)) :
    ∃ more, status path listing verdict = statusLine path verdict ++ more ∧
      (listing = false → more = "") := by
  have hline := Text.visible_shown h
  rcases verdict with message | t
  · exact ⟨"", hline.trans String.append_empty.symm, fun _ => rfl⟩
  · have hplain : plainLine ("  ✓ " ++ path) = statusLine path (.ok t) := hline
    refine ⟨if listing then line t.listing else "", by rw [status, hplain], fun hno => ?_⟩
    rw [hno]
    rfl

lemma line_shown {s : String} (h : Text.Shown s) : line s = s ++ "\n" := by
  rw [line, Text.visible_shown h]

/-- What a check comes to: a status for each of the templates in their order, however often they are
listed, and how many of them do not pass. -/
structure Reports (files : FileTree) (verdict : String → Except String Template)
    (templates : List String) (listing : Bool) (out : Outcome) : Prop where
  stdout : out.stdout = "Checking " ++ templates.length.repr ++ " template(s):\n" ++
    String.join (templates.map fun path => status path listing (verdict path)) ++
      if failures verdict templates = 0 then "✓ All templates compiled\n" else ""
  /-- A status is a line that says whether the template passes. A listing may follow. -/
  status : ∀ path ∈ templates, Text.Shown (statusLine path (verdict path)) →
    ∃ more, status path listing (verdict path) = statusLine path (verdict path) ++ more ∧
      (listing = false → more = "")
  code : out.code = 0 ∧ (∀ path ∈ templates, (verdict path).isOk = true) ∨
    out.code = 1 ∧ ∃ path ∈ templates, (verdict path).isOk = false
  stderr : out.stderr = if failures verdict templates = 0 then "" else
    "✗ " ++ (failures verdict templates).repr ++ " of " ++ templates.length.repr ++
      " template(s) failed\n"
  files : out.files = files

lemma check_reports (files : FileTree) (c : Config) (h : c.opening ≠ "" ∧ c.closing ≠ "")
    (templates : List String) (listing : Bool) :
    Reports files (verdict files (engineOf c h).markers (engineOf c h).rules) templates listing
      (check files c templates listing) := by
  have hchecking : Text.Shown "Checking " := by decide +kernel
  have htemplates : Text.Shown " template(s):" := by decide +kernel
  have hheader : line ("Checking " ++ templates.length.repr ++ " template(s):") =
      "Checking " ++ templates.length.repr ++ " template(s):" ++ "\n" :=
    line_shown ((hchecking.append (Text.shown_repr _)).append htemplates)
  have hpassed : line "✓ All templates compiled" = "✓ All templates compiled" ++ "\n" :=
    line_shown (by decide +kernel)
  have hcross : Text.Shown "✗ " := by decide +kernel
  have hof : Text.Shown " of " := by decide +kernel
  have hlast : Text.Shown " template(s) failed" := by decide +kernel
  have hfailed (n : ℕ) :
      line ("✗ " ++ n.repr ++ " of " ++ templates.length.repr ++ " template(s) failed") =
        "✗ " ++ n.repr ++ " of " ++ templates.length.repr ++ " template(s) failed" ++ "\n" := by
    have hcount := (hcross.append (Text.shown_repr n)).append hof
    exact line_shown ((hcount.append (Text.shown_repr _)).append hlast)
  rw [check, ofConfig_eq h]
  dsimp only
  rw [statuses_eq]
  generalize verdict files (engineOf c h).markers (engineOf c h).rules = verdict
  dsimp only
  rw [hheader]
  by_cases hzero : failures verdict templates = 0
  · rw [if_pos hzero, hpassed]
    refine ⟨?_, fun _ _ => status_shown, .inl ⟨rfl, failures_eq_zero.mp hzero⟩, ?_, rfl⟩
    · rw [if_pos hzero]
      simp only [String.append_assoc]
      rfl
    · rw [if_pos hzero]
  · rw [if_neg hzero, hfailed]
    refine ⟨?_, fun _ _ => status_shown, .inr ⟨rfl, ?_⟩, ?_, rfl⟩
    · rw [if_neg hzero, String.append_empty]
      simp only [String.append_assoc]
      rfl
    · have hsome := mt failures_eq_zero.mpr hzero
      simpa using hsome
    · rw [if_neg hzero]
      simp only [String.append_assoc]
      rfl

/-- The verdicts are those of renders with the same files and configuration, whatever readable data
the renders are given. -/
def FollowsRenders (files : FileTree) (c : Config) (engine : Engine)
    (verdict : String → Except String Template) : Prop :=
  ∀ (path : String) (data output : Option String) (v : Value), readData files data = .ok v →
    ∀ bound, perform files bound c (.render path data output) =
        (rendered files bound engine path v).map (handOut files path output) ∧
      ((verdict path).isOk = true ↔ (∃ text, files.read path = .ok text) ∧
        ¬ Rendered.FailsEarly (rendered files bound engine path v)) ∧
      ∀ e, e.isCompileError = true → rendered files bound engine path v = some (.error e) →
        verdict path = .error e.report

/-- **Checking agrees with rendering**: a check says of each template, in the given order, whether
it passes, and succeeds when all of them do. A template passes when there is a text in its file and
a render of it fails neither to load nor to compile. -/
theorem check_agrees_with_render (files : FileTree) (c : Config)
    (h : c.opening ≠ "" ∧ c.closing ≠ "") (templates : List String) (listing : Bool) (bound : ℕ) :
    ∃ out, perform files bound c (.check templates listing) = some out ∧
      Reports files (verdict files (engineOf c h).markers (engineOf c h).rules) templates listing
        out ∧
      FollowsRenders files c (engineOf c h)
        (verdict files (engineOf c h).markers (engineOf c h).rules) := by
  refine ⟨_, rfl, check_reports files c h templates listing, ?_⟩
  intro path data output v hdata bound
  exact ⟨render_eq h hdata bound path output, verdict_isOk_iff rfl bound v,
    fun _ he hfail => verdict_of_compile_error rfl he hfail⟩

/-- A directory with a template that compiles and one that does not. -/
def workspace : FileTree where
  here := ["work"]
  directories := []
  files := [(["work", "ok"], "<% if (a) \x7b %>x<% \x7d %>".toUTF8),
    (["work", "no"], "<%! nope %>".toUTF8)]

/-- A template that is listed twice fails twice, and one that is not there fails too. -/
theorem check_agrees_with_render_mixed :
    ∃ h : Config.standard.opening ≠ "" ∧ Config.standard.closing ≠ "", ∃ out,
      perform workspace 0 .standard (.check ["no", "ok", "up", "no"] false) = some out ∧
      out.stderr = "✗ 3 of 4 template(s) failed\n" ∧
      Reports workspace (verdict workspace .standard .standard) ["no", "ok", "up", "no"] false
        out ∧
      FollowsRenders workspace .standard (engineOf .standard h)
        (verdict workspace .standard .standard) := by
  have h : Config.standard.opening ≠ "" ∧ Config.standard.closing ≠ "" := by decide
  obtain ⟨out, hout, hreports, hfollows⟩ : ∃ out,
      perform workspace 0 .standard (.check ["no", "ok", "up", "no"] false) = some out ∧
        Reports workspace (verdict workspace .standard .standard) ["no", "ok", "up", "no"]
          false out ∧
        FollowsRenders workspace .standard (engineOf .standard h)
          (verdict workspace .standard .standard) :=
    check_agrees_with_render workspace .standard h ["no", "ok", "up", "no"] false 0
  have hcount : failures (verdict workspace .standard .standard) ["no", "ok", "up", "no"] =
      3 := by
    have hgood : workspace.read "ok" = .ok "<% if (a) \x7b %>x<% \x7d %>" := by cbv
    have hbad : workspace.read "no" = .ok "<%! nope %>" := by cbv
    have hgone : workspace.read "up" = .error .notFound := by cbv
    unfold failures verdict
    simp only [List.countP_cons, List.countP_nil, hgood, hbad, hgone]
    decide +kernel
  have hstderr := hreports.stderr
  rw [hcount] at hstderr
  exact ⟨h, out, hout, hstderr.trans (by decide +kernel), hreports, hfollows⟩

end Command

end Stencil
