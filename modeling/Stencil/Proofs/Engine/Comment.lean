import Stencil.Engine
import Stencil.Proofs.Instruction.Generation
import Stencil.Proofs.Script.Lines
import Stencil.Proofs.Script.Rejoining

/-!
Comment tags in a template.

A comment tag emits nothing, but it divides the literal text around it into two items. A render is
the same with it and without it, unless that text is all that an `if`, an `else` or a loop governs:
then the second part of the text is governed no more.
-/

namespace Stencil

open Script Reader

/-! ### Instructions with a text cut in two -/

def Instruction.isText : Instruction → Bool
  | .appendLiteral _ => true
  | .execute _ | .appendEscaped _ | .appendRaw _ | .noop => false

def Segment.isText : Segment → Bool
  | .literal _ => true
  | .tag _ => false

variable {rules : Rules} {before after : List Segment} {l r : String}
  {front back back' gap instructions : List Instruction} {items items' mid : List Item} {line : ℕ}

lemma Segment.Makes.countP_eq {s : Segment} (h : s.Makes rules front) :
    front.countP Instruction.isText = [s].countP Segment.isText := by
  cases h <;> rfl

/-- Each literal text of a template is an instruction. -/
lemma countP_generate (h : Instruction.generate rules before = .ok front) :
    front.countP Instruction.isText = before.countP Segment.isText := by
  induction before generalizing front with
  | nil =>
    cases h
    rfl
  | cons s before ih =>
    rw [Instruction.generate_cons] at h
    obtain ⟨here, hhere, h⟩ := except_bind_ok.mp h
    obtain ⟨more, hmore, h⟩ := except_bind_ok.mp h
    cases h
    rw [List.countP_append, (Instruction.ofSegment_ok_iff.mp hhere).countP_eq, ih hmore,
      ← List.countP_append, List.singleton_append]

lemma countP_segmentsOf (opening closing : List Char) (line : ℕ) (fs : List Tag.Found) :
    (Tag.segmentsOf opening closing line fs).countP Segment.isText = fs.length := by
  induction fs generalizing line with
  | nil => rfl
  | cons f fs ih =>
    rw [Tag.segmentsOf, List.countP_cons_of_pos rfl, List.countP_cons_of_neg Bool.false_ne_true, ih]
    rfl

namespace Script

def Item.isText : Item → Bool
  | .emit (.literal _) _ => true
  | _ => false

/-- Whatever follows the instructions, they make the first items and lead to the line. -/
def Leads (line : ℕ) (front : List Instruction) (first : List Item) (next : ℕ) : Prop :=
  ∀ back items, itemsFrom line (front ++ back) = .ok items ↔
    ∃ more, itemsFrom next back = .ok more ∧ items = first ++ more

variable {next stop : ℕ} {first second : List Item}

lemma leads_nil : Leads line [] [] line := fun _ items =>
  ⟨fun h => ⟨items, h, rfl⟩, fun ⟨_, h, heq⟩ => heq ▸ h⟩

lemma Leads.trans (h : Leads line front first next) (h' : Leads next back second stop) :
    Leads line (front ++ back) (first ++ second) stop := by
  intro rest items
  rw [List.append_assoc, h]
  constructor
  · rintro ⟨more, hmore, rfl⟩
    obtain ⟨more', hmore', rfl⟩ := (h' rest more).mp hmore
    exact ⟨more', hmore', by rw [List.append_assoc]⟩
  · rintro ⟨more, hmore, rfl⟩
    exact ⟨second ++ more, (h' rest _).mpr ⟨more, hmore, rfl⟩, by rw [List.append_assoc]⟩

lemma leads_of_makes {i : Instruction} (h : i.Makes line first next) :
    Leads line [i] first next := by
  intro back items
  rw [List.singleton_append, itemsFrom_cons_eq h, except_bind_ok]
  constructor
  · rintro ⟨more, hmore, heq⟩
    cases heq
    exact ⟨more, hmore, rfl⟩
  · rintro ⟨more, hmore, rfl⟩
    exact ⟨more, hmore, rfl⟩

lemma countP_of_makes {i : Instruction} (h : i.Makes line first next) :
    first.countP Item.isText = [i].countP Instruction.isText := by
  cases h with
  | execute =>
    rw [List.countP_map]
    exact List.countP_eq_zero.mpr fun _ _ => Bool.false_ne_true
  | literal | escaped | raw | noop => rfl

lemma leads_of_ok (h : itemsFrom line (front ++ back) = .ok items) :
    ∃ first next, Leads line front first next ∧
      first.countP Item.isText = front.countP Instruction.isText := by
  induction front generalizing line items with
  | nil => exact ⟨[], line, leads_nil, rfl⟩
  | cons i front ih =>
    obtain ⟨first, next, more, hi, hmore, rfl⟩ := itemsFrom_cons_ok.mp h
    obtain ⟨second, stop, hleads, hcounts⟩ := ih hmore
    refine ⟨first ++ second, stop, (leads_of_makes hi).trans hleads, ?_⟩
    rw [List.countP_append, countP_of_makes hi, hcounts, ← List.countP_append]
    rfl

/-- What comes before the text that is cut is the same in both lists. -/
lemma DividedAt.append {n : ℕ} (first : List Item) (h : DividedAt l r n items items') :
    DividedAt l r (n + first.countP Item.isText) (first ++ items) (first ++ items') := by
  induction first with
  | nil => exact h
  | cons i first ih =>
    cases i with
    | token t =>
      rw [List.countP_cons_of_neg Bool.false_ne_true]
      exact .token ih
    | emit o line =>
      cases o with
      | literal text =>
        rw [List.countP_cons_of_pos rfl]
        exact .emit (o := .literal text) ih
      | escaped e =>
        rw [List.countP_cons_of_neg Bool.false_ne_true]
        exact .emit (o := .escaped e) ih
      | raw e =>
        rw [List.countP_cons_of_neg Bool.false_ne_true]
        exact .emit (o := .raw e) ih

lemma itemsFrom_noops (h : ∀ i ∈ gap, i = .noop) :
    itemsFrom line (gap ++ back) = itemsFrom line back := by
  induction gap with
  | nil => rfl
  | cons i gap ih =>
    obtain ⟨rfl, hgap⟩ := List.forall_mem_cons.mp h
    exact ih hgap

/-- A text may be in two instructions, with comments between them. -/
lemma itemsFrom_cut (hgap : ∀ i ∈ gap, i = .noop)
    (hback : List.Forall₂ Instruction.Alike back back')
    (h : itemsFrom line (front ++ .appendLiteral (l ++ r) :: back) = .ok items) :
    ∃ items', itemsFrom line (front ++ .appendLiteral l :: (gap ++ .appendLiteral r :: back')) =
      .ok items' ∧ DividedAt l r (front.countP Instruction.isText) items items' := by
  obtain ⟨first, next, hlead, hcount⟩ := leads_of_ok h
  obtain ⟨more, hmore, rfl⟩ := (hlead _ _).mp h
  obtain ⟨rest, hrest, hpure⟩ := except_bind_ok.mp hmore
  cases hpure
  obtain ⟨rest', hrest', haligned⟩ :=
    itemsFrom_alike hback hrest (next + Text.breaks l.toList + Text.breaks r.toList)
  have hright : itemsFrom (next + Text.breaks l.toList) (gap ++ .appendLiteral r :: back') =
      .ok (.emit (.literal r) (next + Text.breaks l.toList) :: rest') := by
    rw [itemsFrom_noops hgap]
    exact itemsFrom_of_makes (.literal _) hrest'
  refine ⟨_, (hlead _ _).mpr ⟨_, itemsFrom_of_makes (.literal _) hright, rfl⟩, ?_⟩
  rw [← hcount, ← Nat.zero_add (first.countP Item.isText)]
  exact (DividedAt.here haligned).append first

lemma itemsFrom_whole (hgap : ∀ i ∈ gap, i = .noop)
    (hback : List.Forall₂ Instruction.Alike back back')
    (h : itemsFrom line (front ++ .appendLiteral l :: (gap ++ .appendLiteral r :: back')) =
      .ok items') :
    ∃ items, itemsFrom line (front ++ .appendLiteral (l ++ r) :: back) = .ok items ∧
      DividedAt l r (front.countP Instruction.isText) items items' := by
  obtain ⟨first, next, hlead, hcount⟩ := leads_of_ok h
  obtain ⟨more, hmore, rfl⟩ := (hlead _ _).mp h
  obtain ⟨half, hhalf, hpure⟩ := except_bind_ok.mp hmore
  cases hpure
  rw [itemsFrom_noops hgap] at hhalf
  obtain ⟨rest', hrest', hpure⟩ := except_bind_ok.mp hhalf
  cases hpure
  have hback' : List.Forall₂ Instruction.Alike back' back := .flip (hback.imp fun _ _ hi => hi.symm)
  obtain ⟨rest, hrest, haligned⟩ :=
    itemsFrom_alike hback' hrest' (next + Text.breaks (l ++ r).toList)
  refine ⟨_, (hlead _ _).mpr ⟨_, itemsFrom_of_makes (.literal _) hrest, rfl⟩, ?_⟩
  rw [← hcount, ← Nat.zero_add (first.countP Item.isText)]
  exact (DividedAt.here haligned.symm).append first

/-- **A program with a text cut in two** is read where the program with the whole text is, and makes
the same runs, if that text is not governed alone. -/
theorem parseProgram_cut {p : Program} (hgap : ∀ i ∈ gap, i = .noop)
    (hback : List.Forall₂ Instruction.Alike back back')
    (h : parseProgram (front ++ .appendLiteral (l ++ r) :: back) = .ok p)
    (hfree : p.alone[front.countP Instruction.isText]? ≠ some true) :
    ∃ p', parseProgram (front ++ .appendLiteral l :: (gap ++ .appendLiteral r :: back')) = .ok p' ∧
      Stmt.EquivalentAll p.body p'.body := by
  obtain ⟨items, hitems, h⟩ := except_bind_ok.mp h
  obtain ⟨ss, hread, h⟩ := except_bind_ok.mp h
  cases h
  obtain ⟨items', hitems', hdivided⟩ := itemsFrom_cut hgap hback hitems
  have hd : Divided l r (some (front.countP Instruction.isText)) items items' := hdivided
  obtain ⟨ss', hread', hE⟩ := runOn_statements_follows hread hd fun n hn => by cases hn; exact hfree
  exact ⟨⟨ss'⟩, except_bind_ok.mpr ⟨items', hitems', except_bind_ok.mpr ⟨ss', hread', rfl⟩⟩, hE⟩

/-- What is read with a text cut in two is read with the whole text. -/
theorem parseProgram_whole {p' : Program} (hgap : ∀ i ∈ gap, i = .noop)
    (hback : List.Forall₂ Instruction.Alike back back')
    (h : parseProgram (front ++ .appendLiteral l :: (gap ++ .appendLiteral r :: back')) = .ok p') :
    ∃ p, parseProgram (front ++ .appendLiteral (l ++ r) :: back) = .ok p := by
  obtain ⟨items', hitems', h⟩ := except_bind_ok.mp h
  obtain ⟨ss', hread', h⟩ := except_bind_ok.mp h
  obtain ⟨items, hitems, hdivided⟩ := itemsFrom_whole hgap hback hitems'
  have hd : Divided l r (some (front.countP Instruction.isText)) items items' := hdivided
  obtain ⟨ss, hread⟩ := runOn_statements_rejoins hread' hd
  exact ⟨⟨ss⟩, except_bind_ok.mpr ⟨items, hitems, except_bind_ok.mpr ⟨ss, hread, rfl⟩⟩⟩

lemma run_of_equivalent {p p' : Program} (h : Stmt.EquivalentAll p.body p'.body) (tiers : Tiers)
    (bound : ℕ) : run tiers bound p = run tiers bound p' := by
  rw [run, run, (h tiers bound).2]

end Script

/-! ### Templates -/

lemma ofTag_comment (rules : Rules) (content : String) (line : ℕ) :
    ∃ gap, Instruction.ofTag rules ⟨"#", content, line⟩ = .ok gap ∧ ∀ i ∈ gap, i = .noop := by
  by_cases hc : content = ""
  · exact ⟨[], by simp [Instruction.ofTag, TagKind.ofMarker?, hc], by simp⟩
  · exact ⟨[.noop], by simp [Instruction.ofTag, TagKind.ofMarker?, hc], by simp⟩

/-- The instructions of a template with a text cut in two by a comment, or its unknown marker. -/
lemma generate_cut {more more' : List Segment} (rules : Rules) (before : List Segment)
    (content : String) (line : ℕ) (halike : List.Forall₂ Segment.Alike more more') :
    (∃ u, Instruction.generate rules (before ++ .literal (l ++ r) :: more) = .error u ∧
      Instruction.generate rules (before ++ .literal l :: .tag ⟨"#", content, line⟩ ::
        .literal r :: more') = .error u) ∨
    ∃ front gap back back', front.countP Instruction.isText = before.countP Segment.isText ∧
      (∀ i ∈ gap, i = .noop) ∧ List.Forall₂ Instruction.Alike back back' ∧
      Instruction.generate rules (before ++ .literal (l ++ r) :: more) =
        .ok (front ++ .appendLiteral (l ++ r) :: back) ∧
      Instruction.generate rules (before ++ .literal l :: .tag ⟨"#", content, line⟩ ::
        .literal r :: more') = .ok (front ++ .appendLiteral l :: (gap ++ .appendLiteral r :: back')) := by
  obtain ⟨gap, hgap, hnoops⟩ := ofTag_comment rules content line
  rw [Instruction.generate_append, Instruction.generate_append]
  rcases hfront : Instruction.generate rules before with u | front
  · exact .inl ⟨u, rfl, rfl⟩
  · rcases Instruction.generate_alike rules halike with ⟨u, hu, hu'⟩ | ⟨back, back', hb, hb', hbacks⟩
    · refine .inl ⟨u, ?_, ?_⟩
      · simp only [Instruction.generate, hu]
        rfl
      · simp only [Instruction.generate, hgap, hu']
        rfl
    · refine .inr ⟨front, gap, back, back', countP_generate hfront, hnoops, hbacks, ?_, ?_⟩
      · simp only [Instruction.generate, hb]
        rfl
      · simp only [Instruction.generate, hgap, hb']
        rfl

variable {m : Markers} {source text : String} {p : m.Place source}

/-- A template with a comment fails to compile for the same unknown marker, or is malformed where
the template is, or makes the same runs where the text around the comment is not governed alone. -/
lemma compile_comment (h : p.Admits text) (rules : Rules) (name : String) :
    (∃ e, Template.compile m rules name source = .error e ∧
      Template.compile m rules name (p.insert (m.comment text)) = .error e) ∨
    (∃ fault fault', Template.compile m rules name source = .error (.malformed name fault) ∧
      Template.compile m rules name (p.insert (m.comment text)) =
        .error (.malformed name fault')) ∨
    ∃ t, Template.compile m rules name source = .ok t ∧
      (t.program.alone[p.tags.length]? ≠ some true →
        ∃ t', Template.compile m rules name (p.insert (m.comment text)) = .ok t' ∧
          t'.name = t.name ∧ Stmt.EquivalentAll t.program.body t'.program.body) := by
  obtain ⟨content, line, more, more', hscan, hscan', halike⟩ := p.scan_insert h
  unfold Template.compile
  rw [hscan, hscan']
  rcases generate_cut (l := .ofList p.left) (r := .ofList p.right) rules
    (Tag.segmentsOf m.opening.toList m.closing.toList 1 p.tags) content line halike with
    ⟨u, hu, hu'⟩ | ⟨front, gap, back, back', hcount, hgap, hback, his, his'⟩
  · rw [hu, hu']
    exact .inl ⟨_, rfl, rfl⟩
  · rw [his, his']
    rw [countP_segmentsOf] at hcount
    dsimp only
    rcases hparse : parseProgram (front ++ .appendLiteral (.ofList p.left ++ .ofList p.right) :: back)
      with fault | program
    · rcases hparse' : parseProgram (front ++ .appendLiteral (.ofList p.left) ::
        (gap ++ .appendLiteral (.ofList p.right) :: back')) with fault' | program'
      · exact .inr (.inl ⟨fault, fault', rfl, rfl⟩)
      · obtain ⟨program, hwhole⟩ := parseProgram_whole hgap hback hparse'
        rw [hparse] at hwhole
        cases hwhole
    · refine .inr (.inr ⟨_, rfl, fun halone => ?_⟩)
      obtain ⟨program', hparse', hE⟩ := parseProgram_cut hgap hback hparse (hcount ▸ halone)
      rw [hparse']
      exact ⟨_, rfl, rfl, hE⟩

/-- The same outcome of two renders, or a template that is malformed in both, for whatever reason. -/
inductive Rendered.Alike : Rendered → Rendered → Prop
  | same {x : Rendered} : Alike x x
  | malformed {name : String} {fault fault' : Fault} :
      Alike (some (.error (.malformed name fault))) (some (.error (.malformed name fault')))

lemma Rendered.Alike.eq_of_ok {x : Rendered} {text : String}
    (h : Rendered.Alike (some (.ok text)) x) : x = some (.ok text) := by
  cases h
  rfl

/-- **Comments render nothing**: a comment tag may be put in anywhere in the literal text of a
template, and every render has the same outcome as without it, unless the text that it divides is
all that an `if`, an `else` or a loop of the template governs. -/
theorem render_comment (e : Engine) (source text : String) (p : e.markers.Place source)
    (h : p.Admits text)
    (halone : ∀ t, e.compile source = .ok t → t.program.alone[p.tags.length]? ≠ some true)
    (bound : ℕ) (data : Value) :
    Rendered.Alike (e.render bound source data)
      (e.render bound (p.insert (e.markers.comment text)) data) := by
  have hcompile := compile_comment h e.rules Template.anonymous
  unfold Engine.render Engine.compile Engine.compileNamed
  rcases hcompile with ⟨error, herror, herror'⟩ | ⟨fault, fault', hfault, hfault'⟩ | ⟨t, ht, hcut⟩
  · rw [herror, herror']
    exact .same
  · rw [hfault, hfault']
    exact .malformed
  · obtain ⟨t', ht', hname, hE⟩ := hcut (halone t ht)
    have hrun : run (e.tiers data) bound t.program = run (e.tiers data) bound t'.program :=
      run_of_equivalent hE _ bound
    have hrender : t.render (e.tiers data) bound = t'.render (e.tiers data) bound := by
      rw [Template.render, Template.render, hrun, hname]
    rw [ht, ht', Engine.executeCompiled, Engine.executeCompiled, Engine.execute, Engine.execute,
      hrender]
    exact .same

/-- A text in a block, behind the tag that opens it. -/
def blockPlace : Markers.standard.Place "<% if (true) \x7b %>ab<% \x7d %>" where
  tags := [⟨[], [], ⟨[' '], "if (true) \x7b".toList, [' '], "ab<% \x7d %>".toList⟩⟩]
  left := ['a']
  right := ['b']
  after := "b<% \x7d %>".toList
  reached := .tag (by decide +kernel) .here
  chunk_eq := by decide +kernel

/-- A text that an `if` without braces governs alone. -/
def governedPlace : Markers.standard.Place "<% if (false) %>ab" where
  tags := [⟨[], [], ⟨[' '], "if (false)".toList, [' '], ['a', 'b']⟩⟩]
  left := ['a']
  right := ['b']
  after := ['b']
  reached := .tag (by decide +kernel) .here
  chunk_eq := by decide +kernel

lemma admits_note {source : String} {p : Markers.standard.Place source} (hleft : p.left = ['a'])
    (hlead : ∀ f ∈ p.tags, f.body.lead = [' ']) : p.Admits " note " where
  solid := ⟨'%', ['>'], rfl, by decide +kernel⟩
  firm f hf c hc := by
    rw [hlead f hf] at hc
    obtain rfl : ' ' = c := by simpa using hc
    decide +kernel
  opening := by
    rw [hleft]
    exact Tag.onlyLast_pair (by decide) (by decide)
  blank := by decide +kernel
  closing := Tag.onlyLast_pair (by decide) (by decide)

theorem render_comment_block : ∃ (e : Engine) (p : e.markers.Place "<% if (true) \x7b %>ab<% \x7d %>"),
    Engine.ofConfig .standard = .ok e ∧ p.Admits " note " ∧
    p.insert (e.markers.comment " note ") = "<% if (true) \x7b %>a<%# note %>b<% \x7d %>" ∧
    (∀ t, e.compile "<% if (true) \x7b %>ab<% \x7d %>" = .ok t →
      t.program.alone[p.tags.length]? ≠ some true) ∧
    Rendered.Alike (e.render 0 "<% if (true) \x7b %>ab<% \x7d %>" .null)
      (e.render 0 (p.insert (e.markers.comment " note ")) .null) := by
  let e : Engine := ⟨.standard, .standard, .standard, Helper.standard, []⟩
  have hadmits : blockPlace.Admits " note " := admits_note rfl (by decide)
  have halone : ∀ t, e.compile "<% if (true) \x7b %>ab<% \x7d %>" = .ok t →
      t.program.alone[blockPlace.tags.length]? ≠ some true := by
    have hmarks : (e.compile "<% if (true) \x7b %>ab<% \x7d %>").toOption.map (·.program.alone) =
        some [false, false, false] := by decide +kernel
    intro t ht
    rw [ht] at hmarks
    have halone : t.program.alone = [false, false, false] := Option.some.inj hmarks
    rw [halone]
    decide
  exact ⟨e, blockPlace, rfl, hadmits, by decide +kernel, halone,
    render_comment e _ _ blockPlace hadmits halone 0 .null⟩

/-- Where an `if` governs the text alone, its second part is not governed any more. -/
theorem render_comment_governed : ∃ (e : Engine) (p : e.markers.Place "<% if (false) %>ab"),
    Engine.ofConfig .standard = .ok e ∧ p.Admits " note " ∧
    p.insert (e.markers.comment " note ") = "<% if (false) %>a<%# note %>b" ∧
    ¬ Rendered.Alike (e.render 0 "<% if (false) %>ab" .null)
      (e.render 0 (p.insert (e.markers.comment " note ")) .null) := by
  let e : Engine := ⟨.standard, .standard, .standard, Helper.standard, []⟩
  have hadmits : governedPlace.Admits " note " := admits_note rfl (by decide)
  have hwhole : e.render 0 "<% if (false) %>ab" .null = some (.ok "") := by decide +kernel
  have hcut : e.render 0 (governedPlace.insert (e.markers.comment " note ")) .null =
      some (.ok "b") := by decide +kernel
  refine ⟨e, governedPlace, rfl, hadmits, by decide +kernel, fun halike => ?_⟩
  rw [hwhole, hcut] at halike
  have heq : (some (.ok "b") : Rendered) = some (.ok "") := halike.eq_of_ok
  exact absurd heq (by decide)

end Stencil
