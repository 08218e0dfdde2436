import Stencil.Engine
import Stencil.Proofs.Instruction.Generation
import Stencil.Proofs.Script.Exact
import Stencil.Proofs.Script.Items
import Stencil.Proofs.Script.Parts
import Stencil.Proofs.Script.Statements
import Stencil.Proofs.Tag.Decomposition

/-!
Templates without statements.

Such a template shows its literal texts and the values of its output tags, one after the other.
Nothing is repeated or left out, so all that a render can do is to evaluate the expressions from
left to right, each with the locals that the one before left.
-/

namespace Stencil

open Script Grammar

/-- `Shows segments os`: none of the segments holds a statement, and what they show is `os`. -/
inductive Shows : List Segment → List Output → Prop
  | nil : Shows [] []
  | literal {text : String} {rest : List Segment} {os : List Output} :
      Shows rest os → Shows (.literal text :: rest) (.literal text :: os)
  | empty {t : Tag} {rest : List Segment} {os : List Output} :
      t.marker ∈ ["", "=", "==", "-", "#"] → t.content = "" →
      Shows rest os → Shows (.tag t :: rest) os
  | comment {t : Tag} {rest : List Segment} {os : List Output} :
      t.marker = "#" → Shows rest os → Shows (.tag t :: rest) os
  | escaped {t : Tag} {e : Expr} {rest : List Segment} {os : List Output} :
      t.marker = "=" → t.content ≠ "" → parseExpression t.content t.line = .ok e →
      Shows rest os → Shows (.tag t :: rest) (.escaped e :: os)
  | raw {t : Tag} {e : Expr} {rest : List Segment} {os : List Output} :
      t.marker ∈ ["==", "-"] → t.content ≠ "" → parseExpression t.content t.line = .ok e →
      Shows rest os → Shows (.tag t :: rest) (.raw e :: os)

/-- The text that outputs make when the expressions in them have the given values, in order. -/
def display : List Output → List Value → String
  | .literal text :: os, vs => text ++ display os vs
  | .escaped _ :: os, v :: vs => Text.escapeText v.toText ++ display os vs
  | .raw _ :: os, v :: vs => v.toText ++ display os vs
  | _, _ => ""

/-! ### Compiling -/

variable {rules : Rules} {segments : List Segment} {items : List Item} {os : List Output}

/-- The instructions of a template without statements emit what its segments show. -/
lemma Shows.generate (h : Shows segments os) (rules : Rules) :
    ∃ is, Instruction.generate rules segments = .ok is ∧
      ∀ line, ∃ items, itemsFrom line is = .ok items ∧ Emits items os := by
  induction h with
  | nil => exact ⟨[], rfl, fun _ => ⟨[], rfl, .nil⟩⟩
  | @literal text rest os _ ih =>
    obtain ⟨is, his, hitems⟩ := ih
    refine ⟨_, Instruction.generate_of_makes (.literal text) his, fun line => ?_⟩
    obtain ⟨items, hi, hemits⟩ := hitems (line + Text.breaks text.toList)
    exact ⟨_, itemsFrom_of_makes (.literal text) hi, .cons ⟨line, rfl⟩ hemits⟩
  | empty hm hc _ ih =>
    obtain ⟨is, his, hitems⟩ := ih
    exact ⟨is, Instruction.generate_of_makes (.empty hm hc) his, hitems⟩
  | @comment t rest os hm _ ih =>
    obtain ⟨is, his, hitems⟩ := ih
    by_cases hc : t.content = ""
    · have hknown : t.Known := by simp [Tag.Known, hm]
      exact ⟨is, Instruction.generate_of_makes (.empty hknown hc) his, hitems⟩
    · exact ⟨_, Instruction.generate_of_makes (.comment hm hc) his, hitems⟩
  | @escaped t e rest os hm hc he _ ih =>
    obtain ⟨is, his, hitems⟩ := ih
    refine ⟨_, Instruction.generate_of_makes (.escaped hm hc) his, fun line => ?_⟩
    obtain ⟨items, hi, hemits⟩ := hitems t.line
    exact ⟨_, itemsFrom_of_makes (.escaped _ he) hi, .cons ⟨t.line, rfl⟩ hemits⟩
  | @raw t e rest os hm hc he _ ih =>
    obtain ⟨is, his, hitems⟩ := ih
    have hmarker : t.marker = "==" ∨ t.marker = "-" := by simpa using hm
    refine ⟨_, Instruction.generate_of_makes (.raw hmarker hc) his, fun line => ?_⟩
    obtain ⟨items, hi, hemits⟩ := hitems t.line
    exact ⟨_, itemsFrom_of_makes (.raw _ he) hi, .cons ⟨t.line, rfl⟩ hemits⟩

lemma Shows.compile {markers : Markers} {text : String} (h : Shows (markers.scan text) os)
    (rules : Rules) (name : String) :
    ∃ is, Template.compile markers rules name text = .ok ⟨name, is, ⟨os.map Stmt.output⟩⟩ := by
  obtain ⟨is, his, hitems⟩ := h.generate rules
  obtain ⟨items, hi, hemits⟩ := hitems 1
  have hruns : Runs (statement maxNesting false) (items ++ []) [] (os.map .output) :=
    hemits.runs []
  rw [List.append_nil] at hruns
  have hparse : parseProgram is = .ok ⟨os.map Stmt.output⟩ :=
    except_bind_ok.mpr ⟨items, hi, except_bind_ok.mpr ⟨_, runOn_of_runs hruns, rfl⟩⟩
  refine ⟨is, ?_⟩
  rw [Template.compile, his]
  dsimp only
  rw [hparse]

/-! ### Running -/

variable {tiers : Tiers} {bound : ℕ}

/-- An output tag writes what its value makes, or fails as its expression does. -/
lemma execTop_value {o : Output} (e : Expr) (shown : Value → String) (rest : List Stmt)
    (ho : writeOutput tiers o = (do
      let v ← Exec.ofEval (eval tiers e)
      Exec.write (shown v))) (locals : Locals) (out : String) :
    execTop tiers bound (.output o :: rest) ⟨locals, out⟩ =
      match eval tiers e locals with
      | .error e => (some (.error e) : Option (Except EvalError (Unit × Frame)))
      | .ok (v, locals) => execTop tiers bound rest ⟨locals, out ++ shown v⟩ := by
  have hstep : execTop tiers bound (.output o :: rest) = (do
      let v ← Exec.ofEval (eval tiers e)
      Exec.write (shown v)
      execTop tiers bound rest) := by
    rw [execTop, exec, ho]
    change ((_ >>= fun _ => _) >>= fun _ => pure ()) >>= _ = _
    simp only [bind_assoc, pure_bind]
  rw [hstep, run_bind]
  unfold Exec.ofEval
  rcases eval tiers e locals with e' | ⟨v, locals'⟩ <;> rfl

/-- What outputs alone make of locals and of the text before them. -/
def displayed (tiers : Tiers) (os : List Output) (locals : Locals) (out : String) :
    Option (Except EvalError (Unit × Frame)) :=
  match evalList tiers (os.flatMap Output.exprs) locals with
  | .error e => some (.error e)
  | .ok (vs, locals) => some (.ok ((), ⟨locals, out ++ display os vs⟩))

/-- The value of the first output is shown before the others are evaluated. -/
lemma displayed_value {o : Output} {e : Expr} (he : o.exprs = [e]) (shown : Value → String)
    (hshow : ∀ v vs, display (o :: os) (v :: vs) = shown v ++ display os vs) (locals : Locals)
    (out : String) :
    displayed tiers (o :: os) locals out =
      match eval tiers e locals with
      | .error e => some (.error e)
      | .ok (v, locals) => displayed tiers os locals (out ++ shown v) := by
  have hlist : evalList tiers ((o :: os).flatMap Output.exprs) = (do
      let v ← eval tiers e
      let vs ← evalList tiers (os.flatMap Output.exprs)
      return v :: vs) := by
    rw [List.flatMap_cons, he, List.singleton_append, evalList]
  rw [displayed, hlist]
  rcases hv : eval tiers e locals with err | ⟨v, mid⟩
  · rw [state_bind_error.mpr (.inl hv)]
  · dsimp only
    rw [displayed]
    rcases hvs : evalList tiers (os.flatMap Output.exprs) mid with err | ⟨vs, last⟩
    · rw [state_bind_error.mpr (.inr ⟨v, mid, hv, state_bind_error.mpr (.inl hvs)⟩)]
    · rw [state_bind_ok.mpr ⟨v, mid, hv, state_bind_ok.mpr ⟨vs, last, hvs, rfl⟩⟩]
      simp only [hshow, String.append_assoc]

/-- A run of outputs alone evaluates their expressions as a list of them is evaluated. -/
lemma execTop_outputs (os : List Output) (locals : Locals) (out : String) :
    execTop tiers bound (os.map Stmt.output) ⟨locals, out⟩ = displayed tiers os locals out := by
  induction os generalizing locals out with
  | nil =>
    have hshow : out ++ display [] [] = out := by simp [display]
    rw [displayed, List.flatMap_nil, evalList]
    change _ = some (Except.ok ((), Frame.mk locals (out ++ display [] [])))
    rw [hshow]
    rfl
  | cons o os ih =>
    cases o with
    | literal text =>
      have hstep : execTop tiers bound (.output (.literal text) :: os.map Stmt.output)
          ⟨locals, out⟩ = execTop tiers bound (os.map Stmt.output) ⟨locals, out ++ text⟩ := by
        rw [execTop, exec]
        rfl
      rw [List.map_cons, hstep, ih]
      simp only [displayed, List.flatMap_cons, Output.exprs, List.nil_append, display,
        String.append_assoc]
    | escaped e =>
      rw [List.map_cons, execTop_value e (fun v => Text.escapeText v.toText) _ rfl,
        displayed_value rfl (fun v => Text.escapeText v.toText) fun _ _ => rfl]
      rcases eval tiers e locals with err | ⟨v, mid⟩
      · rfl
      · exact ih mid _
    | raw e =>
      rw [List.map_cons, execTop_value e Value.toText _ rfl,
        displayed_value rfl Value.toText fun _ _ => rfl]
      rcases eval tiers e locals with err | ⟨v, mid⟩
      · rfl
      · exact ih mid _

/-! ### Rendering -/

/-- Literal text alone, where no closing marker comes after an opening one. -/
lemma scan_of_no_tag {m : Markers} {text : String}
    (h : ∀ u v w, text ≠ u ++ m.opening ++ v ++ m.closing ++ w) :
    m.scan text = [.literal text] := by
  rcases hf : Tag.find? m.opening.toList m.closing.toList text.toList with _ | f
  · rw [Markers.scan, Tag.segmentsWithin_none _ _ hf, String.ofList_toList]
  · obtain ⟨hs, -, -⟩ := Tag.find?_eq_some hf
    refine (h (.ofList f.before)
      (.ofList (f.marker ++ f.body.lead ++ f.body.content ++ f.body.trail))
      (.ofList f.body.rest) ?_).elim
    rw [← String.toList_inj, hs]
    simp [Tag.Found.inside]

lemma render_of_shows {e : Engine} {text : String} (h : Shows (e.markers.scan text) os)
    (bound : ℕ) (data : Value) :
    e.render bound text data = some (
      match evalList (e.tiers data) (os.flatMap Output.exprs) [] with
      | .error err => .error (.evaluation Template.anonymous err)
      | .ok (vs, _) => .ok (display os vs)) := by
  obtain ⟨is, hcompile⟩ := h.compile e.rules Template.anonymous
  have hrun : run (e.tiers data) bound ⟨os.map Stmt.output⟩ =
      match evalList (e.tiers data) (os.flatMap Output.exprs) [] with
      | .error err => some (.error err)
      | .ok (vs, _) => some (.ok (display os vs)) := by
    rw [run, execTop_outputs, displayed]
    rcases evalList (e.tiers data) (os.flatMap Output.exprs) [] with err | ⟨vs, locals⟩ <;> simp
  rw [Engine.render, Engine.compile, Engine.compileNamed, hcompile, Engine.executeCompiled,
    Engine.execute, Template.render, hrun]
  rcases evalList (e.tiers data) (os.flatMap Output.exprs) [] with err | ⟨vs, locals⟩ <;> rfl

/-- **Piecewise rendering**: a template without statements is compiled, and it renders as the
texts and the values that it shows, or fails as the first of its expressions that fails. Text in
which no tag is closed renders as itself. -/
theorem render_piecewise (e : Engine) (text : String) :
    (∀ os, Shows (e.markers.scan text) os →
      (∃ t, e.compile text = .ok t) ∧
      ∀ bound data, e.render bound text data = some (
        match evalList (e.tiers data) (os.flatMap Output.exprs) [] with
        | .error err => .error (.evaluation Template.anonymous err)
        | .ok (vs, _) => .ok (display os vs))) ∧
    ((∀ u v w, text ≠ u ++ e.markers.opening ++ v ++ e.markers.closing ++ w) →
      ∀ bound data, e.render bound text data = some (.ok text)) := by
  refine ⟨fun os h => ⟨?_, render_of_shows h⟩, fun h bound data => ?_⟩
  · obtain ⟨is, hcompile⟩ := h.compile e.rules Template.anonymous
    exact ⟨_, hcompile⟩
  · have hshows : Shows (e.markers.scan text) [.literal text] := by
      rw [scan_of_no_tag h]
      exact .literal .nil
    have hvalues : evalList (e.tiers data) ([Output.literal text].flatMap Output.exprs) [] =
        .ok ([], []) := by
      rw [List.flatMap_singleton, Output.exprs, evalList]
      rfl
    rw [render_of_shows hshows, hvalues]
    simp [display]

/-- A name that is assigned in one tag and shown again in another. -/
def greeting : String := "Hi <%= who = '<b>' %>, <%# note %>you are <%- who %>.<%=%>"

lemma shows_greeting : Shows (Markers.standard.scan greeting)
    [.literal "Hi ", .escaped (.assign .set (.ident "who") (.literal (.str "<b>"))),
      .literal ", ", .literal "you are ", .raw (.ident "who"), .literal ".", .literal ""] := by
  have hscan : Markers.standard.scan greeting =
      [.literal "Hi ", .tag ⟨"=", "who = '<b>'", 1⟩, .literal ", ", .tag ⟨"#", "note", 1⟩,
        .literal "you are ", .tag ⟨"-", "who", 1⟩, .literal ".", .tag ⟨"=", "", 1⟩,
        .literal ""] := by
    decide +kernel
  have hwho : Derives 1 (.operators 0) [.ident "who"] (.ident "who") :=
    (Derives.ident (by decide) fun _ h => by simpa using h.mem).operators (by omega)
  have hbold : Derives 1 (.operators 0) [.str "<b>"] (.literal (.str "<b>")) :=
    (Derives.text "<b>").operators (by omega)
  have hname : parseExpression "who" 1 = .ok (.ident "who") := by
    have ht : tokenize "who" 1 = .ok [⟨.ident "who", 1⟩] := by decide +kernel
    have hd := Derives.single (.unassigned (.unconditional hwho))
    exact parseExpression_of_derives ht (by simp) (hd.mono (by decide))
  have hassign : parseExpression "who = '<b>'" 1 =
      .ok (.assign .set (.ident "who") (.literal (.str "<b>"))) := by
    have ht : tokenize "who = '<b>'" 1 =
        .ok [⟨.ident "who", 1⟩, ⟨.punct .assign, 1⟩, ⟨.str "<b>", 1⟩] := by decide +kernel
    have hd := Derives.single (.assign .set (.unconditional (hwho.mono (by omega))) rfl
      (.unassigned (.unconditional hbold)))
    exact parseExpression_of_derives ht (by simp) (hd.mono (by decide))
  rw [hscan]
  exact .literal <| .escaped rfl (by decide) hassign <| .literal <| .comment rfl <| .literal <|
    .raw (by decide) (by decide) hname <| .literal <| .empty (by decide) rfl <| .literal .nil

theorem render_piecewise_greeting : ∃ (e : Engine) (os : List Output),
    Engine.ofConfig .standard = .ok e ∧ Shows (e.markers.scan greeting) os ∧
    e.render 0 greeting .null = some (.ok "Hi &lt;b&gt;, you are <b>.") ∧
    e.render 0 "<%= plain" .null = some (.ok "<%= plain") := by
  have hplain : ∀ u v w : String, "<%= plain" ≠ u ++ "<%" ++ v ++ "%>" ++ w := by
    intro u v w heq
    have hcount := congrArg (fun s => s.toList.count '%') heq
    simp only [String.toList_append, List.count_append] at hcount
    have h1 : "<%= plain".toList.count '%' = 1 := by decide
    have h2 : "<%".toList.count '%' = 1 := by decide
    have h3 : "%>".toList.count '%' = 1 := by decide
    omega
  let e : Engine := ⟨.standard, .standard, .standard, Helper.standard, []⟩
  obtain ⟨-, hrender⟩ := (render_piecewise e greeting).1 _ shows_greeting
  have hgreeting : e.render 0 greeting .null = some (.ok "Hi &lt;b&gt;, you are <b>.") := by
    rw [hrender]
    decide +kernel
  exact ⟨e, _, rfl, shows_greeting, hgreeting, (render_piecewise e _).2 hplain 0 .null⟩

end Stencil
