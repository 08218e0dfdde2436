import Mathlib.Data.List.Forall2
import Stencil.Proofs.Outcome
import Stencil.Template

/-!
What instructions are made of a template's segments.

Each segment makes its own instructions, whatever stands before and after it, and those of a
template are put together in the order of its segments. The first tag with an unknown type marker
keeps a template from having any.
-/

namespace Stencil

/-! ### What one segment makes -/

/-- The type marker of the tag stands for a kind of tags. -/
def Tag.Known (t : Tag) : Prop := t.marker ∈ ["", "=", "==", "-", "#"]

instance (t : Tag) : Decidable t.Known := inferInstanceAs (Decidable (t.marker ∈ _))

/-- The rules rewrite a text one after the other, each what the rules before it have left. -/
inductive Rules.Rewrites : Rules → String → String → Prop
  | nil (code : String) : Rewrites [] code code
  | cons {r : Rule} {rules : Rules} {code result : String} :
      Rewrites rules (r.apply code) result → Rewrites (r :: rules) code result

/-- The instructions that a segment makes by itself. Code is rewritten in statements only. -/
inductive Segment.Makes (rules : Rules) : Segment → List Instruction → Prop
  | literal (text : String) : Makes rules (.literal text) [.appendLiteral text]
  | empty {t : Tag} : t.Known → t.content = "" → Makes rules (.tag t) []
  | statement {t : Tag} {source : String} : t.marker = "" → t.content ≠ "" →
      rules.Rewrites t.content source → Makes rules (.tag t) [.execute ⟨source, t.line⟩]
  | escaped {t : Tag} : t.marker = "=" → t.content ≠ "" →
      Makes rules (.tag t) [.appendEscaped ⟨t.content, t.line⟩]
  | raw {t : Tag} : t.marker = "==" ∨ t.marker = "-" → t.content ≠ "" →
      Makes rules (.tag t) [.appendRaw ⟨t.content, t.line⟩]
  | comment {t : Tag} : t.marker = "#" → t.content ≠ "" → Makes rules (.tag t) [.noop]

/-- The segment is a tag with the marker, and the marker is not known. -/
def Segment.Unknown (s : Segment) (u : UnknownMarker) : Prop :=
  ∃ t, s = .tag t ∧ ¬t.Known ∧ u.marker = t.marker

lemma Rules.rewrites_apply (rules : Rules) (code : String) :
    rules.Rewrites code (rules.apply code) := by
  induction rules generalizing code with
  | nil => exact .nil code
  | cons r rules ih => exact .cons (ih (r.apply code))

lemma Rules.Rewrites.apply_eq {rules : Rules} {code result : String}
    (h : rules.Rewrites code result) : rules.apply code = result := by
  induction h with
  | nil code => rfl
  | cons _ ih => exact ih

lemma Tag.ofMarker?_eq_none {t : Tag} (h : ¬t.Known) : TagKind.ofMarker? t.marker = none := by
  simp only [Known, List.mem_cons, List.not_mem_nil, or_false, not_or] at h
  obtain ⟨hstatement, hescaped, hraw, hdash, hcomment⟩ := h
  unfold TagKind.ofMarker?
  split <;> first | contradiction | rfl

/-- There is a kind of tags for every marker that is known. -/
lemma Segment.makes_or_unknown (rules : Rules) (s : Segment) :
    (∃ is, s.Makes rules is) ∨ ∃ u, s.Unknown u := by
  cases s with
  | literal text => exact .inl ⟨_, .literal text⟩
  | tag t =>
    by_cases hknown : t.Known
    · refine .inl ?_
      by_cases hcontent : t.content = ""
      · exact ⟨_, .empty hknown hcontent⟩
      · simp only [Tag.Known, List.mem_cons, List.not_mem_nil, or_false] at hknown
        rcases hknown with hm | hm | hm | hm | hm
        · exact ⟨_, .statement hm hcontent (rules.rewrites_apply t.content)⟩
        · exact ⟨_, .escaped hm hcontent⟩
        · exact ⟨_, .raw (.inl hm) hcontent⟩
        · exact ⟨_, .raw (.inr hm) hcontent⟩
        · exact ⟨_, .comment hm hcontent⟩
    · exact .inr ⟨⟨t.marker⟩, t, rfl, hknown, rfl⟩

lemma Segment.Makes.known {rules : Rules} {t : Tag} {is : List Instruction}
    (h : (Segment.tag t).Makes rules is) : t.Known := by
  cases h with
  | empty hknown _ => exact hknown
  | statement hm _ _ | escaped hm _ | comment hm _ => simp [Tag.Known, hm]
  | raw hm _ => rcases hm with hm | hm <;> simp [Tag.Known, hm]

namespace Instruction

variable {rules : Rules} {segments more : List Segment} {s : Segment} {is here : List Instruction}
  {u : UnknownMarker}

/-- The instructions of one segment. -/
def ofSegment (rules : Rules) : Segment → Except UnknownMarker (List Instruction)
  | .literal text => .ok [.appendLiteral text]
  | .tag t => ofTag rules t

lemma ofSegment_of_makes (h : s.Makes rules is) : ofSegment rules s = .ok is := by
  cases h with
  | literal text => rfl
  | @empty t hknown hcontent =>
    simp only [Tag.Known, List.mem_cons, List.not_mem_nil, or_false] at hknown
    rcases hknown with hm | hm | hm | hm | hm <;>
      simp [ofSegment, ofTag, TagKind.ofMarker?, hm, hcontent]
  | statement hm hcontent hrewrites =>
    simp [ofSegment, ofTag, TagKind.ofMarker?, hm, hcontent, hrewrites.apply_eq]
  | escaped hm hcontent => simp [ofSegment, ofTag, TagKind.ofMarker?, hm, hcontent]
  | raw hm hcontent =>
    rcases hm with hm | hm <;> simp [ofSegment, ofTag, TagKind.ofMarker?, hm, hcontent]
  | comment hm hcontent => simp [ofSegment, ofTag, TagKind.ofMarker?, hm, hcontent]

lemma ofSegment_of_unknown (h : s.Unknown u) : ofSegment rules s = .error u := by
  obtain ⟨t, rfl, hknown, hu⟩ := h
  obtain rfl : u = ⟨t.marker⟩ := by
    cases u
    exact congrArg UnknownMarker.mk hu
  rw [ofSegment, ofTag, Tag.ofMarker?_eq_none hknown]

lemma ofSegment_ok_iff : ofSegment rules s = .ok is ↔ s.Makes rules is := by
  refine ⟨fun h => ?_, ofSegment_of_makes⟩
  rcases s.makes_or_unknown rules with ⟨is', hmakes⟩ | ⟨u, hunknown⟩
  · rw [ofSegment_of_makes hmakes] at h
    cases h
    exact hmakes
  · rw [ofSegment_of_unknown hunknown] at h
    cases h

lemma ofSegment_error_iff : ofSegment rules s = .error u ↔ s.Unknown u := by
  refine ⟨fun h => ?_, ofSegment_of_unknown⟩
  rcases s.makes_or_unknown rules with ⟨is', hmakes⟩ | ⟨u', hunknown⟩
  · rw [ofSegment_of_makes hmakes] at h
    cases h
  · rw [ofSegment_of_unknown hunknown] at h
    cases h
    exact hunknown

/-! ### What a template makes -/

lemma generate_cons : generate rules (s :: segments) = (do
    let here ← ofSegment rules s
    return here ++ (← generate rules segments)) := by
  cases s with
  | literal text => rfl
  | tag t => rfl

lemma generate_of_makes (h : s.Makes rules here) (hmore : generate rules segments = .ok is) :
    generate rules (s :: segments) = .ok (here ++ is) := by
  rw [generate_cons, ofSegment_of_makes h, hmore]
  rfl

lemma generate_append : generate rules (segments ++ more) = (do
    let front ← generate rules segments
    let back ← generate rules more
    return front ++ back) := by
  induction segments with
  | nil =>
    rw [List.nil_append, generate]
    cases generate rules more <;> rfl
  | cons s segments ih =>
    rw [List.cons_append, generate_cons, generate_cons, ih]
    simp only [bind_assoc, pure_bind, List.append_assoc]

lemma generate_ok_iff : generate rules segments = .ok is ↔
    ∃ pieces, List.Forall₂ (Segment.Makes rules) segments pieces ∧ is = pieces.flatten := by
  induction segments generalizing is with
  | nil =>
    rw [generate]
    constructor
    · rintro ⟨⟩
      exact ⟨[], .nil, rfl⟩
    · rintro ⟨pieces, hpieces, rfl⟩
      cases hpieces
      rfl
  | cons s segments ih =>
    rw [generate_cons, except_bind_ok]
    constructor
    · rintro ⟨here, hhere, h⟩
      obtain ⟨more, hmore, h⟩ := except_bind_ok.mp h
      obtain ⟨pieces, hpieces, rfl⟩ := ih.mp hmore
      cases h
      exact ⟨here :: pieces, .cons (ofSegment_ok_iff.mp hhere) hpieces, rfl⟩
    · rintro ⟨pieces, hpieces, rfl⟩
      cases hpieces with
      | @cons _ here _ pieces hhere hpieces =>
        have hmore := ih.mpr ⟨pieces, hpieces, rfl⟩
        exact ⟨here, ofSegment_ok_iff.mpr hhere, except_bind_ok.mpr ⟨_, hmore, rfl⟩⟩

/-- The error is that of the first tag with an unknown marker. Rules have no part in it. -/
lemma generate_error_iff : generate rules segments = .error u ↔
    ∃ before s after, segments = before ++ s :: after ∧ s.Unknown u ∧
      ∀ t, Segment.tag t ∈ before → t.Known := by
  induction segments with
  | nil => simp [generate]
  | cons s segments ih =>
    rw [generate_cons, except_bind_error]
    constructor
    · rintro (hs | ⟨here, hhere, h⟩)
      · exact ⟨[], s, segments, rfl, ofSegment_error_iff.mp hs, by simp⟩
      · rcases except_bind_error.mp h with h | ⟨more, -, h⟩
        · obtain ⟨before, s', after, rfl, hs', hbefore⟩ := ih.mp h
          refine ⟨s :: before, s', after, rfl, hs', fun t ht => ?_⟩
          rcases List.mem_cons.mp ht with rfl | ht
          · exact (ofSegment_ok_iff.mp hhere).known
          · exact hbefore t ht
        · cases h
    · rintro ⟨before, s', after, hsplit, hs', hbefore⟩
      cases before with
      | nil =>
        obtain ⟨rfl, rfl⟩ := List.cons.inj hsplit
        exact .inl (ofSegment_of_unknown hs')
      | cons b before =>
        obtain ⟨rfl, rfl⟩ := List.cons.inj hsplit
        rcases s.makes_or_unknown rules with ⟨here, hhere⟩ | ⟨u', t, rfl, hunknown, -⟩
        · have hrest : generate rules (before ++ s' :: after) = .error u :=
            ih.mpr ⟨before, s', after, rfl, hs', fun t ht => hbefore t (List.mem_cons_of_mem _ ht)⟩
          exact .inr ⟨here, ofSegment_of_makes hhere, except_bind_error.mpr (.inl hrest)⟩
        · exact absurd (hbefore t List.mem_cons_self) hunknown

lemma known_of_generate_ok (h : generate rules segments = .ok is) {t : Tag}
    (ht : Segment.tag t ∈ segments) : t.Known := by
  obtain ⟨pieces, hpieces, -⟩ := generate_ok_iff.mp h
  clear h
  induction hpieces with
  | nil => cases ht
  | cons hhere _ ih =>
    rcases List.mem_cons.mp ht with rfl | ht
    · exact hhere.known
    · exact ih ht

/-- The same instruction, but for the code of a statement. -/
inductive Kindred : Instruction → Instruction → Prop
  | same (i : Instruction) : Kindred i i
  | execute (source source' : String) (line : ℕ) :
      Kindred (.execute ⟨source, line⟩) (.execute ⟨source', line⟩)

lemma kindred_of_makes (rules' : Rules) (h : s.Makes rules is) :
    ∃ is', s.Makes rules' is' ∧ List.Forall₂ Kindred is is' := by
  have hself : List.Forall₂ Kindred is is := List.forall₂_same.mpr fun i _ => .same i
  cases h with
  | literal text => exact ⟨_, .literal text, hself⟩
  | empty hknown hcontent => exact ⟨_, .empty hknown hcontent, hself⟩
  | @statement t source hm hcontent _ =>
    exact ⟨_, .statement hm hcontent (rules'.rewrites_apply t.content),
      .cons (.execute source _ t.line) .nil⟩
  | escaped hm hcontent => exact ⟨_, .escaped hm hcontent, hself⟩
  | raw hm hcontent => exact ⟨_, .raw hm hcontent, hself⟩
  | comment hm hcontent => exact ⟨_, .comment hm hcontent, hself⟩

lemma kindred_pieces (rules' : Rules) {pieces : List (List Instruction)}
    (h : List.Forall₂ (Segment.Makes rules) segments pieces) :
    ∃ pieces', List.Forall₂ (Segment.Makes rules') segments pieces' ∧
      List.Forall₂ Kindred pieces.flatten pieces'.flatten := by
  induction h with
  | nil => exact ⟨[], .nil, .nil⟩
  | cons hhere _ ih =>
    obtain ⟨here', hhere', hkindred⟩ := kindred_of_makes rules' hhere
    obtain ⟨pieces', hpieces', hkindreds⟩ := ih
    exact ⟨here' :: pieces', .cons hhere' hpieces', List.rel_append hkindred hkindreds⟩

/-- Other rules change the code of statements at most. -/
lemma generate_kindred (rules rules' : Rules) (segments : List Segment) :
    (∃ u, generate rules segments = .error u ∧ generate rules' segments = .error u) ∨
      ∃ is is', generate rules segments = .ok is ∧ generate rules' segments = .ok is' ∧
        List.Forall₂ Kindred is is' := by
  rcases h : generate rules segments with u | is
  · exact .inl ⟨u, rfl, generate_error_iff.mpr (generate_error_iff.mp h)⟩
  · obtain ⟨pieces, hpieces, rfl⟩ := generate_ok_iff.mp h
    obtain ⟨pieces', hpieces', hkindred⟩ := kindred_pieces rules' hpieces
    exact .inr ⟨_, _, rfl, generate_ok_iff.mpr ⟨pieces', hpieces', rfl⟩, hkindred⟩

/-- **Instructions are the image of the segments.** They are those that the segments make, each by
itself and in their order. There are none if a tag has an unknown marker, even a tag without
content, and then the first such marker is reported. So other rules can change no more than the code
of statements, and the instructions of two parts put together are those of the whole. -/
theorem generate_image (rules : Rules) (segments : List Segment) :
    (∀ is, generate rules segments = .ok is ↔
      ∃ pieces, List.Forall₂ (Segment.Makes rules) segments pieces ∧ is = pieces.flatten) ∧
    ((∃ u, generate rules segments = .error u) ↔ ∃ t, Segment.tag t ∈ segments ∧ ¬t.Known) ∧
    (∀ u, generate rules segments = .error u ↔
      ∃ before s after, segments = before ++ s :: after ∧ s.Unknown u ∧
        ∀ t, Segment.tag t ∈ before → t.Known) ∧
    (∀ markers text u, markers.scan text = segments → generate rules segments = .error u →
      ∀ name, Template.compile markers rules name text =
        .error (.unknownTag markers.opening u.marker name)) ∧
    (∀ rules',
      (∃ u, generate rules segments = .error u ∧ generate rules' segments = .error u) ∨
        ∃ is is', generate rules segments = .ok is ∧ generate rules' segments = .ok is' ∧
          List.Forall₂ Kindred is is') ∧
    ∀ more, generate rules (segments ++ more) = (do
      let front ← generate rules segments
      let back ← generate rules more
      return front ++ back) := by
  refine ⟨fun is => generate_ok_iff, ⟨?_, ?_⟩, fun u => generate_error_iff, ?_,
    fun rules' => generate_kindred rules rules' segments, fun more => generate_append⟩
  · rintro ⟨u, h⟩
    obtain ⟨before, s, after, rfl, ⟨t, rfl, hunknown, -⟩, -⟩ := generate_error_iff.mp h
    exact ⟨t, by simp, hunknown⟩
  · rintro ⟨t, ht, hunknown⟩
    rcases h : generate rules segments with u | is
    · exact ⟨u, rfl⟩
    · exact absurd (known_of_generate_ok h ht) hunknown
  · rintro markers text u rfl h name
    rw [Template.compile, h]

/-- The first of two unknown markers is reported, although its tag is without content. -/
theorem generate_image_unknown :
    Markers.standard.scan "a<%! %>b<%? c %>" = [.literal "a", .tag ⟨"!", "", 1⟩, .literal "b",
      .tag ⟨"?", "c", 1⟩, .literal ""] ∧
    Template.compile .standard .standard "page" "a<%! %>b<%? c %>" =
      .error (.unknownTag "<%" "!" "page") := by
  have hscan : Markers.standard.scan "a<%! %>b<%? c %>" = [.literal "a", .tag ⟨"!", "", 1⟩,
      .literal "b", .tag ⟨"?", "c", 1⟩, .literal ""] := by decide +kernel
  have hfirst : Segment.Unknown (.tag ⟨"!", "", 1⟩) ⟨"!"⟩ := ⟨_, rfl, by decide, rfl⟩
  obtain ⟨-, -, herror, hcompile, -, -⟩ := generate_image .standard
    [.literal "a", .tag ⟨"!", "", 1⟩, .literal "b", .tag ⟨"?", "c", 1⟩, .literal ""]
  have hgenerate := (herror ⟨"!"⟩).mpr ⟨[.literal "a"], _, _, rfl, hfirst, by simp⟩
  exact ⟨hscan, hcompile .standard _ _ hscan hgenerate "page"⟩

end Instruction

end Stencil
