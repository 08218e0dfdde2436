import Stencil.Proofs.Engine.History
import Stencil.Proofs.Instruction.Generation
import Stencil.Proofs.Rewrite.Breaks
import Stencil.Proofs.Script.FaultLines
import Stencil.Proofs.Tag.Closing

/-!
Lines that engines report.

The line of a tag is that of its opening marker. From there on the lines of the template are counted
in what is left of it: blanks around the content of a tag are gone, rules may have rewritten the
content, and a tag without content is not seen any more. So what is counted falls behind the
template and never gets ahead of it.
-/

namespace Stencil

open Script

/-! ### Tags -/

namespace Markers.Occurrence

variable {m : Markers} {source : String} (o : m.Occurrence source)

/-- The template before the opening marker of the tag. -/
def ahead : List Char := Tag.textOf m.opening.toList m.closing.toList o.tags ++ o.tag.before

lemma source_eq : source.toList =
    o.ahead ++ m.opening.toList ++ o.tag.inside m.closing.toList ++ o.tag.body.rest := by
  rw [o.reached.eq_textOf, ahead, Tag.textOf, List.flatMap_append]
  simp [Tag.textOf]

lemma segments_eq : o.segments =
    Tag.segmentsOf m.opening.toList m.closing.toList 1 o.tags ++
      [.literal (.ofList o.tag.before)] ++
        [.tag ⟨.ofList o.tag.marker, .ofList o.tag.body.content, 1 + Text.breaks o.ahead⟩] := by
  rw [segments, Tag.segmentsOf_append, ahead, Text.breaks_append, ← Nat.add_assoc,
    List.append_assoc]
  rfl

end Markers.Occurrence

/-- Every tag of a scan is one of the template, on the line of its opening marker. -/
lemma Markers.exists_occurrence {m : Markers} {source : String} {before after : List Segment}
    {t : Tag} (h : m.scan source = before ++ .tag t :: after) :
    ∃ o : m.Occurrence source, o.segments = before ++ [.tag t] ∧
      t = ⟨.ofList o.tag.marker, .ofList o.tag.body.content, 1 + Text.breaks o.ahead⟩ := by
  obtain ⟨fs, f, hreaches, hsegments⟩ := Tag.exists_reaches (Nat.le_refl _) h
  let o : m.Occurrence source := ⟨fs, f, hreaches⟩
  refine ⟨o, hsegments, ?_⟩
  obtain ⟨-, htag⟩ := List.append_inj' (o.segments_eq.symm.trans hsegments) rfl
  exact (Segment.tag.inj (List.singleton_inj.mp htag)).symm

/-! ### Faults -/

namespace Tag

variable {opening closing cs : List Char} {n line start last : ℕ} {is here : List Instruction}
  {t : Tag}

/-- The code of a tag is counted from its line on, and is not longer than its content. -/
lemma counts_of_makes (hmakes : (Segment.tag t).Makes .standard here) (hstart : start ≤ t.line)
    (hline : 1 ≤ t.line) (hlast : t.line + Text.breaks t.content.toList ≤ last)
    (hrest : ∀ start ≤ t.line, Counts last start is) : Counts last start (here ++ is) := by
  cases hmakes with
  | empty => exact hrest start hstart
  | statement _ _ hrewrites =>
    have hshort := Rules.breaks_apply_standard t.content
    rw [hrewrites.apply_eq] at hshort
    exact ⟨hline, Nat.le_trans (Nat.add_le_add_left hshort _) hlast, hrest _ (Nat.le_refl _)⟩
  | escaped | raw => exact ⟨hline, hlast, hrest _ (Nat.le_refl _)⟩
  | comment => exact hrest start hstart

/-- The instructions of a scanned text count no line that the text does not have. -/
lemma counts_of_generate
    (h : Instruction.generate .standard (segmentsWithin opening closing n line cs) = .ok is)
    (hstart : start ≤ line) (hline : 1 ≤ line) (hlast : line + Text.breaks cs ≤ last) :
    Counts last start is := by
  have hliteral {line start : ℕ} {cs : List Char} {is : List Instruction}
      (h : Instruction.generate .standard [.literal (.ofList cs)] = .ok is)
      (hstart : start ≤ line) (hlast : line + Text.breaks cs ≤ last) : Counts last start is := by
    cases h
    refine ⟨?_, trivial⟩
    rw [String.toList_ofList]
    omega
  induction n generalizing line start cs is with
  | zero => exact hliteral h hstart hlast
  | succ n ih =>
    rw [segmentsWithin] at h
    rcases hfind : find? opening closing cs with _ | f
    · rw [hfind] at h
      exact hliteral h hstart hlast
    · rw [hfind] at h
      dsimp only at h
      rw [Instruction.generate_cons, except_bind_ok] at h
      obtain ⟨_, hbefore, h⟩ := h
      obtain ⟨_, h, hsplit⟩ := except_bind_ok.mp h
      rw [Instruction.generate_cons, except_bind_ok] at h
      obtain ⟨here, htag, h⟩ := h
      obtain ⟨more, hmore, hrest⟩ := except_bind_ok.mp h
      cases hbefore
      cases hrest
      cases hsplit
      rw [(find?_eq_some hfind).1] at hlast
      simp only [Text.breaks_append, Found.inside] at hlast
      have hrest (start : ℕ) (hstart : start ≤ line + Text.breaks f.before) :
          Counts last start more := by
        refine ih hmore (Nat.le_add_right_of_le hstart) ?_ ?_
        · exact Nat.le_add_right_of_le (Nat.le_add_right_of_le hline)
        · rw [Found.breaks]
          omega
      have hbefore : start + Text.breaks f.before ≤ line + Text.breaks f.before :=
        Nat.add_le_add_right hstart _
      have hcounts := counts_of_makes (Instruction.ofSegment_ok_iff.mp htag) hbefore
        (Nat.le_add_right_of_le hline) (by rw [String.toList_ofList]; dsimp only; omega) hrest
      rw [← String.toList_ofList (l := f.before)] at hcounts
      exact ⟨by rw [String.toList_ofList]; omega, hcounts⟩

end Tag

/-- The text that an operation compiles if there is no template for it yet. -/
def Operation.text? : Operation → Option String
  | .compile text | .precompile _ text | .getOrCompile _ text => some text
  | .render _ text _ | .renderCached _ _ text _ => some text
  | .renderFile _ load key _ => (load key).toOption
  | _ => none

namespace Engine

variable {e : Engine} {op : Operation} {key name text template : String} {fault : Fault}
  {error : TemplateError}

lemma upto_of_compileNamed (hrules : e.rules = .standard)
    (h : e.compileNamed name text = .error (.malformed template fault)) :
    Upto (1 + Text.breaks text.toList) fault.line := by
  unfold compileNamed Template.compile at h
  rw [hrules] at h
  split at h
  · cases h
  · rename_i is hgenerate
    split at h
    · rename_i herror
      cases h
      have hcounts := Tag.counts_of_generate hgenerate (Nat.le_refl 1) (Nat.le_refl 1)
        (Nat.le_refl _)
      exact upto_of_parseProgram_error hcounts (Nat.le_add_right 1 _) herror
    · cases h

lemma compileNamed_of_precompile (h : (e.precompile key text).1 = .error error) :
    e.compileNamed key text = .error error := by
  unfold precompile at h
  split at h
  · rename_i herror
    cases h
    exact herror
  · cases h

lemma compileNamed_of_getOrCompile (h : (e.getOrCompile key text).1 = .error error) :
    e.compileNamed key text = .error error := by
  unfold getOrCompile at h
  split at h
  · cases h
  · exact compileNamed_of_precompile h

/-- A template that is there runs, and fails as it runs if it fails. -/
lemma eq_of_executeCompiled {bound : ℕ} {t : Except TemplateError Template} {data : Value}
    (h : e.executeCompiled bound t data = some (.error (.malformed template fault))) :
    t = .error (.malformed template fault) := by
  rcases t with error | t
  · cases h
    rfl
  · cases execute_error h

lemma error?_rendered {r : Rendered} (h : (Outcome.rendered r).error? = some error) :
    r = some (.error error) := by
  rcases r with _ | error | text
  · cases h
  · cases h
    rfl
  · cases h

lemma error?_compiled {t : Except TemplateError Template}
    (h : (Outcome.compiled t).error? = some error) : t = .error error := by
  rcases t with error | t
  · cases h
    rfl
  · cases h

/-- Only texts are malformed. -/
lemma exists_compileNamed (h : (e.step op).1.error? = some (.malformed template fault)) :
    ∃ name text, op.text? = some text ∧
      e.compileNamed name text = .error (.malformed template fault) := by
  have hcached {bound : ℕ} {key text : String} {data : Value}
      (h : (e.renderCached bound key text data).1 = some (.error (.malformed template fault))) :
      e.compileNamed key text = .error (.malformed template fault) :=
    compileNamed_of_getOrCompile (eq_of_executeCompiled h)
  cases op with
  | configure c =>
    rw [step] at h
    split at h <;> cases h
  | mapContext | registerHelper | mapRules | removeCached | clearCache => cases h
  | compile text => exact ⟨_, text, rfl, error?_compiled h⟩
  | precompile key text => exact ⟨_, text, rfl, compileNamed_of_precompile (error?_compiled h)⟩
  | getOrCompile key text => exact ⟨_, text, rfl, compileNamed_of_getOrCompile (error?_compiled h)⟩
  | execute bound t data => cases execute_error (error?_rendered h)
  | render bound text data => exact ⟨_, text, rfl, eq_of_executeCompiled (error?_rendered h)⟩
  | renderCached bound key text data => exact ⟨_, text, rfl, hcached (error?_rendered h)⟩
  | renderTemplate bound key data =>
    have hrender := error?_rendered h
    unfold renderTemplate at hrender
    split at hrender
    · cases hrender
    · cases execute_error hrender
  | renderFile bound load key data =>
    have hrender := error?_rendered h
    split at hrender
    · cases hrender
    · rename_i text hload
      exact ⟨_, text, by rw [Operation.text?, hload]; rfl, hcached hrender⟩

/-- **Lines stay inside the template.** A tag that is scanned is on the line of its opening marker.
With the standard rules, whatever is done with an engine, a text is malformed only on one of its own
lines. -/
theorem lines_inside_template :
    (∀ (m : Markers) (source : String) (before after : List Segment) (t : Tag),
      m.scan source = before ++ .tag t :: after →
      ∃ o : m.Occurrence source, o.segments = before ++ [.tag t] ∧
        source.toList =
          o.ahead ++ m.opening.toList ++ o.tag.inside m.closing.toList ++ o.tag.body.rest ∧
        t = ⟨.ofList o.tag.marker, .ofList o.tag.body.content, 1 + Text.breaks o.ahead⟩) ∧
    ∀ (e : Engine) (op : Operation) (template : String) (fault : Fault), e.rules = .standard →
      (e.step op).1.error? = some (.malformed template fault) →
      ∃ text, op.text? = some text ∧ 1 ≤ fault.line ∧ fault.line ≤ 1 + Text.breaks text.toList := by
  refine ⟨fun m source before after t h => ?_, fun e op template fault hrules h => ?_⟩
  · obtain ⟨o, hsegments, htag⟩ := Markers.exists_occurrence h
    exact ⟨o, hsegments, o.source_eq, htag⟩
  · obtain ⟨name, text, htext, hcompile⟩ := exists_compileNamed h
    exact ⟨text, htext, upto_of_compileNamed hrules hcompile⟩

/-- A tag on the third line, and a statement that the end of the template leaves open. -/
theorem lines_inside_template_open : ∃ e : Engine, Engine.ofConfig .standard = .ok e ∧
    Markers.standard.scan "a\n\n<%= b %>" =
      [.literal "a\n\n"] ++ .tag ⟨"=", "b", 3⟩ :: [.literal ""] ∧
    (∃ o : Markers.standard.Occurrence "a\n\n<%= b %>",
      o.segments = [.literal "a\n\n"] ++ [.tag ⟨"=", "b", 3⟩] ∧ 3 = 1 + Text.breaks o.ahead) ∧
    (e.step (.render 0 "a\n<%\nif (b\n%>\n" .null)).1.error? =
      some (.malformed "<anonymous>" ⟨.expectedPunct .closeParen "template text", 2⟩) ∧
    ∃ text, (Operation.render 0 "a\n<%\nif (b\n%>\n" .null).text? = some text ∧
      1 ≤ 2 ∧ 2 ≤ 1 + Text.breaks text.toList := by
  let e : Engine := ⟨.standard, .standard, .standard, Helper.standard, []⟩
  have hscan : Markers.standard.scan "a\n\n<%= b %>" =
      [.literal "a\n\n"] ++ .tag ⟨"=", "b", 3⟩ :: [.literal ""] := by decide +kernel
  have herror : (e.step (.render 0 "a\n<%\nif (b\n%>\n" .null)).1.error? =
      some (.malformed "<anonymous>" ⟨.expectedPunct .closeParen "template text", 2⟩) := by
    decide +kernel
  obtain ⟨o, hsegments, -, htag⟩ := lines_inside_template.1 _ _ _ _ _ hscan
  exact ⟨e, rfl, hscan, ⟨o, hsegments, congrArg Tag.line htag⟩, herror,
    lines_inside_template.2 e _ _ _ rfl herror⟩

end Engine

end Stencil
