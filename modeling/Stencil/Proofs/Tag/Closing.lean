import Stencil.Proofs.Tag.Insertion

/-!
Where tags end.

A type marker takes as many symbols as it can, and a closing marker may be made of symbols too. So a
closing marker that comes right after the type marker is taken into it as long as another one
follows. Apart from that a tag ends at the first closing marker after its opening one, and is found
whatever comes after it.
-/

namespace Stencil.Tag

variable {opening closing cs rest xs ys : List Char} {b : Body} {f g : Found} {fs : List Found}

/-- A closing marker made of symbols, no two of which overlap. -/
structure Symbolic (closing : List Char) : Prop where
  ne : closing ≠ []
  symbol : ∀ c ∈ closing, isSymbol c = true
  apart : ∀ text, ¬ closing <:+: text → OnlyLast closing (text ++ closing)

lemma Symbolic.head? (h : Symbolic closing) : ∃ c ∈ closing.head?, isSymbol c = true := by
  obtain ⟨c, cs, rfl⟩ := List.exists_cons_of_ne_nil h.ne
  exact ⟨c, rfl, h.symbol c List.mem_cons_self⟩

lemma Symbolic.solid (h : Symbolic closing) : Solid closing := by
  obtain ⟨c, cs, rfl⟩ := List.exists_cons_of_ne_nil h.ne
  exact ⟨c, cs, rfl, (isSymbol_iff.mp (h.symbol c List.mem_cons_self)).1⟩

/-- What is between the type marker and the closing marker. -/
def Body.padded (b : Body) : List Char := b.lead ++ b.content ++ b.trail

/-- What is between the markers of a tag. -/
def Found.inner (f : Found) : List Char := f.marker ++ f.body.padded

/-- What comes after the opening marker of a tag. -/
def Found.behind (closing : List Char) (f : Found) : List Char :=
  f.inner ++ closing ++ f.body.rest

/-- No closing marker after the opening one begins before the one that ends the tag. -/
def Found.EndsFirst (closing : List Char) (f : Found) : Prop :=
  ∀ u v, f.behind closing = u ++ closing ++ v → f.inner.length ≤ u.length

/-- The closing marker comes right after the type marker, and none comes later. -/
structure Found.Bare (closing : List Char) (f : Found) : Prop where
  padded : f.body.padded = []
  last : ∀ u v, closing ++ f.body.rest = u ++ closing ++ v → u = []

/-! ### The two ways a type marker ends -/

lemma marked?_firm_or_bare (hs : Symbolic closing) (h : marked? closing cs = some f) :
    f.Firm closing ∨ f.Bare closing := by
  induction cs generalizing f with
  | nil =>
    obtain ⟨-, hcs, -⟩ := marked?_eq_some h
    have hnil : closing = [] := by simp_all [Found.inside]
    exact absurd hnil hs.ne
  | cons c cs ih =>
    rw [marked?, Option.or_eq_some_iff] at h
    rcases h with h | ⟨hnone, h⟩
    · simp only [Option.map_eq_some_iff, Option.ite_none_right_eq_some] at h
      obtain ⟨f', ⟨-, hf'⟩, rfl⟩ := h
      rcases ih hf' with hfirm | ⟨hpadded, hlast⟩
      · exact .inl hfirm
      · exact .inr ⟨hpadded, hlast⟩
    · obtain ⟨b, hb, rfl⟩ := Option.map_eq_some_iff.mp h
      have hcs : c :: cs = b.padded ++ (closing ++ b.rest) := by
        rw [(body?_eq_some hb).1]
        simp [Body.padded]
      by_cases hc : isSymbol c = true
      · -- the symbol was given back, so no closing marker comes after it
        right
        rw [if_pos hc] at hnone
        have hout : ¬ closing <:+: cs := fun hin => by
          have hsome := marked?_isSome hin
          rw [Option.map_eq_none_iff.mp hnone] at hsome
          cases hsome
        have hpadded : b.padded = [] := by
          rcases hp : b.padded with _ | ⟨d, ds⟩
          · rfl
          · rw [hp] at hcs
            exact absurd ⟨ds, b.rest, by simpa using (List.cons.inj hcs).2.symm⟩ hout
        refine ⟨hpadded, fun u v huv => ?_⟩
        rcases u with _ | ⟨d, u⟩
        · rfl
        · rw [hpadded, List.nil_append, huv] at hcs
          exact absurd ⟨u, v, (List.cons.inj hcs).2.symm⟩ hout
      · -- the closing marker begins with a symbol, so something comes before it
        left
        intro d hd
        have hhead : (b.padded ++ closing).head? = some d := hd
        have hwhole : (c :: cs).head? = some d := by
          rw [hcs, ← List.append_assoc, List.head?_append, hhead]
          rfl
        obtain rfl : c = d := by simpa using hwhole
        simpa using hc

lemma find?_firm_or_bare (hs : Symbolic closing) (h : find? opening closing cs = some f) :
    f.Firm closing ∨ f.Bare closing := by
  obtain ⟨_, hmarked⟩ := find?_marked h
  rcases marked?_firm_or_bare hs hmarked with hfirm | ⟨hpadded, hlast⟩
  · exact .inl hfirm
  · exact .inr ⟨hpadded, hlast⟩

lemma Found.Firm.padded_ne (hs : Symbolic closing) (h : f.Firm closing) : f.body.padded ≠ [] := by
  intro hnil
  obtain ⟨c, hc, hsymbol⟩ := hs.head?
  have hno : isSymbol c = false := h c (by
    change c ∈ (f.body.padded ++ closing).head?
    rwa [hnil, List.nil_append])
  rw [hsymbol] at hno
  cases hno

lemma firm_iff_padded (hs : Symbolic closing) (h : find? opening closing cs = some f) :
    f.Firm closing ↔ f.body.padded ≠ [] := by
  refine ⟨fun hfirm => hfirm.padded_ne hs, fun hne => ?_⟩
  rcases find?_firm_or_bare hs h with hfirm | hbare
  · exact hfirm
  · exact absurd hbare.padded hne

/-! ### The first closing marker -/

/-- A word of symbols does not go on beyond a character that is none. -/
lemma symbols_split (hs : Symbolic closing) (hys : ∀ c ∈ ys.head?, isSymbol c = false)
    {u v : List Char} (h : xs ++ ys = u ++ closing ++ v) :
    closing <:+: xs ∨ ∃ w, u = xs ++ w ∧ ys = w ++ closing ++ v := by
  rw [List.append_assoc] at h
  rcases List.append_eq_append_iff.mp h with ⟨w, hu, hw⟩ | ⟨w, hxs, hw⟩
  · exact .inr ⟨w, hu, by rw [hw, List.append_assoc]⟩
  · left
    rcases List.append_eq_append_iff.mp hw with ⟨x, hx, -⟩ | ⟨x, hclosing, hx⟩
    · exact ⟨u, x, by rw [hxs, hx, List.append_assoc]⟩
    · rcases x with _ | ⟨c, x⟩
      · exact ⟨u, [], by rw [hxs, hclosing]; simp⟩
      · have hsymbol := hs.symbol c (by rw [hclosing]; simp)
        rw [hys c (by rw [hx]; rfl)] at hsymbol
        cases hsymbol

/-- As many blanks as possible and as little content as possible come before the closing marker. -/
lemma body?_first (hc : Solid closing) (h : body? closing cs = some b) {u v : List Char}
    (hcs : cs = u ++ closing ++ v) : b.padded.length ≤ u.length := by
  have hcontent {b : Body} {cs u : List Char} (h : content? closing cs = some b)
      (hcs : cs = u ++ closing ++ v) : b.padded.length ≤ u.length := by
    rw [Body.padded, (content?_eq_some h).1]
    exact content?_first hc h hcs
  induction cs generalizing b u with
  | nil => exact hcontent h hcs
  | cons c cs ih =>
    rw [body?, Option.or_eq_some_iff] at h
    rcases h with h | ⟨-, h⟩
    · simp only [Option.map_eq_some_iff, Option.ite_none_right_eq_some] at h
      obtain ⟨b', ⟨hblank, hb'⟩, rfl⟩ := h
      cases u with
      | nil =>
        obtain ⟨d, ds, rfl, hd⟩ := hc
        obtain ⟨rfl, -⟩ : c = d ∧ cs = ds ++ v := by simpa using hcs
        rw [hblank] at hd
        cases hd
      | cons d u =>
        obtain ⟨-, hrest⟩ : c = d ∧ cs = u ++ closing ++ v := by simpa using hcs
        exact Nat.succ_le_succ (ih hb' hrest)
    · exact hcontent h hcs

/-- A tag whose type marker holds no closing marker ends at the first one. -/
lemma endsFirst_of_marker (hs : Symbolic closing) (h : find? opening closing cs = some f)
    (hmarker : ¬ closing <:+: f.marker) : f.EndsFirst closing := by
  intro u v huv
  rcases find?_firm_or_bare hs h with hfirm | hbare
  · obtain ⟨_, hbody⟩ := find?_body h
    have hcs := (body?_eq_some hbody).1
    have hhead : ∀ c ∈ (f.body.padded ++ closing ++ f.body.rest).head?, isSymbol c = false := by
      intro c hc
      obtain ⟨d, ds, hd⟩ := List.exists_cons_of_ne_nil (hfirm.padded_ne hs)
      rw [hd] at hc
      exact hfirm c (by
        change c ∈ (f.body.padded ++ closing).head?
        rw [hd]
        exact hc)
    have hsplit : f.marker ++ (f.body.padded ++ closing ++ f.body.rest) = u ++ closing ++ v := by
      rw [← huv]
      simp [Found.behind, Found.inner]
    rcases symbols_split hs hhead hsplit with hin | ⟨w, rfl, hw⟩
    · exact absurd hin hmarker
    · have hfirst := body?_first hs.solid hbody (hcs.trans hw)
      simp only [Found.inner, List.length_append] at hfirst ⊢
      omega
  · have hinner : f.inner = f.marker := by rw [Found.inner, hbare.padded, List.append_nil]
    rw [Found.behind, hinner] at huv
    rw [hinner]
    rcases List.append_eq_append_iff.mp huv with ⟨w, hw, -⟩ | ⟨w, hw, -⟩
    · have hlen := congrArg List.length hw
      simp only [List.length_append] at hlen
      omega
    · have hnil := hs.apart f.marker hmarker u w hw
      have hlen := congrArg List.length hw
      simp only [hnil, List.length_append, List.length_nil] at hlen
      omega

lemma endsFirst_iff (hs : Symbolic closing) (h : find? opening closing cs = some f) :
    f.EndsFirst closing ↔ ¬ closing <:+: f.marker := by
  refine ⟨fun hfirst hin => ?_, endsFirst_of_marker hs h⟩
  obtain ⟨u, v, huv⟩ := hin
  have hle := hfirst u (v ++ f.body.padded ++ closing ++ f.body.rest) (by
    rw [Found.behind, Found.inner, ← huv]
    simp)
  have hpos := List.length_pos_iff.mpr hs.ne
  have hlen := congrArg List.length huv
  simp only [Found.inner, List.length_append] at hle hlen
  omega

/-- The content of a tag never holds a closing marker. -/
lemma content_of_find? (hs : Symbolic closing) (h : find? opening closing cs = some f) :
    ¬ closing <:+: f.body.content := by
  rintro ⟨u, v, huv⟩
  obtain ⟨_, hbody⟩ := find?_body h
  have hnil := (body?_tight hs.solid hbody).1 u (v ++ f.body.trail ++ closing) (by
    rw [← huv]
    simp)
  exact hs.ne (List.append_eq_nil_iff.mp hnil).2

/-! ### The symbols after an opening marker -/

lemma takeWhile_firm (hs : Symbolic closing) (h : find? opening closing cs = some f)
    (hfirm : f.Firm closing) : (f.behind closing).takeWhile isSymbol = f.marker := by
  have hmarker : ∀ c ∈ f.marker, isSymbol c = true := fun c hc =>
    isSymbol_iff.mpr ((find?_eq_some h).2.1.marker c hc)
  obtain ⟨d, ds, hd⟩ := List.exists_cons_of_ne_nil (hfirm.padded_ne hs)
  have hno : isSymbol d = false := hfirm d (by
    change d ∈ (f.body.padded ++ closing).head?
    rw [hd]
    rfl)
  rw [Found.behind, Found.inner, hd, List.append_assoc, List.append_assoc,
    List.takeWhile_append_of_pos hmarker]
  simp [hno]

lemma infix_takeWhile_bare (hs : Symbolic closing) (h : find? opening closing cs = some f)
    (hbare : f.Bare closing) : closing <:+: (f.behind closing).takeWhile isSymbol := by
  have hmarker : ∀ c ∈ f.marker ++ closing, isSymbol c = true := by
    intro c hc
    rcases List.mem_append.mp hc with hc | hc
    · exact isSymbol_iff.mpr ((find?_eq_some h).2.1.marker c hc)
    · exact hs.symbol c hc
  rw [Found.behind, Found.inner, hbare.padded, List.append_nil,
    List.takeWhile_append_of_pos hmarker]
  exact ⟨f.marker, f.body.rest.takeWhile isSymbol, rfl⟩

/-! ### Tags with another text after them -/

lemma Reaches.snoc (h : Reaches opening closing cs (fs ++ [f]) rest) :
    (∃ cs', Reaches opening closing cs fs cs' ∧ find? opening closing cs' = some f) ∧
      rest = f.body.rest := by
  induction fs generalizing cs with
  | nil =>
    cases h with
    | tag hf hrest =>
      cases hrest
      exact ⟨⟨cs, .here, hf⟩, rfl⟩
  | cons g fs ih =>
    cases h with
    | tag hg hrest =>
      obtain ⟨⟨cs', hreaches, hf⟩, heq⟩ := ih hrest
      exact ⟨⟨cs', .tag hg hreaches, hf⟩, heq⟩

/-- A closing marker comes after every tag but the last, so the type marker of such a tag is as long
as it can be. -/
lemma Reaches.firm (hs : Symbolic closing)
    (h : Reaches opening closing cs (fs ++ [f]) rest) : ∀ g ∈ fs, g.Firm closing := by
  induction fs generalizing cs with
  | nil => simp
  | cons g fs ih =>
    cases h with
    | tag hg hrest =>
      refine List.forall_mem_cons.mpr ⟨?_, ih hrest⟩
      rcases find?_firm_or_bare hs hg with hfirm | hbare
      · exact hfirm
      · have hlast : g.body.rest = textOf opening closing fs ++ f.before ++ opening ++ f.marker ++
            f.body.padded ++ closing ++ rest := by
          rw [hrest.eq_textOf]
          simp [textOf, Found.inside, Body.padded]
        have hnil := hbare.last (closing ++ (textOf opening closing fs ++ f.before ++ opening ++
          f.marker ++ f.body.padded)) rest (by rw [hlast]; simp)
        exact absurd (List.append_eq_nil_iff.mp hnil).1 hs.ne

/-- The tag with the closing marker taken into its type marker, as it is found when a blank and
another closing marker follow. -/
def Found.extended (closing : List Char) (f : Found) : Found :=
  ⟨f.before, f.marker ++ closing, ⟨[' '], [], [], []⟩⟩

lemma extended_written (hs : Symbolic closing) (h : find? opening closing cs = some f) :
    (f.extended closing).Written opening closing := by
  obtain ⟨hcs, hclean, -⟩ := find?_eq_some h
  have hblank : Text.isBlank ' ' = true := by decide +kernel
  have hspace : isSymbol ' ' = false := by decide +kernel
  refine ⟨⟨?_, ?_, ⟨?_, ?_⟩, fun _ => rfl, ?_⟩, ?_, ?_, ?_⟩
  · simpa [Found.extended] using hblank
  · simp [Found.extended]
  · simp [Found.extended]
  · simp [Found.extended]
  · intro u v huv
    have hlen := congrArg List.length huv
    simp only [Found.extended, List.nil_append, List.length_append] at hlen
    exact List.eq_nil_of_length_eq_zero (by omega)
  · intro c hc
    rcases List.mem_append.mp hc with hc | hc
    · exact isSymbol_iff.mpr (hclean.marker c hc)
    · exact hs.symbol c hc
  · simpa [Found.extended] using hspace
  · intro u v huv
    have hbefore : f.before ++ opening = u ++ opening ++ v := huv
    have hfirst : f.before.length ≤ u.length :=
      find?_first h (v := v ++ f.inside closing ++ f.body.rest) (by rw [hcs, hbefore]; simp)
    have hlen := congrArg List.length hbefore
    simp only [List.length_append] at hlen
    exact List.eq_nil_of_length_eq_zero (by omega)

end Stencil.Tag

namespace Stencil

open Tag

namespace Tag

lemma segmentsOf_append (opening closing : List Char) (line : ℕ) (fs gs : List Found) :
    segmentsOf opening closing line (fs ++ gs) = segmentsOf opening closing line fs ++
      segmentsOf opening closing (line + Text.breaks (textOf opening closing fs)) gs := by
  induction fs generalizing line with
  | nil => rfl
  | cons f fs ih =>
    rw [List.cons_append, segmentsOf, ih, breaks_textOf_cons, ← Nat.add_assoc, ← Nat.add_assoc]
    rfl

variable {m : Markers} {n line : ℕ} {cs : List Char} {before after : List Segment} {t : Tag}

/-- The tags of a scan are what it finds, each after the ones before it. -/
lemma exists_reaches (hn : cs.length ≤ n)
    (h : segmentsWithin m.opening.toList m.closing.toList n line cs = before ++ .tag t :: after) :
    ∃ fs f, Reaches m.opening.toList m.closing.toList cs (fs ++ [f]) f.body.rest ∧
      segmentsOf m.opening.toList m.closing.toList line (fs ++ [f]) = before ++ [.tag t] := by
  have hnone {n line : ℕ} {cs : List Char} {before : List Segment}
      (hf : find? m.opening.toList m.closing.toList cs = none) :
      segmentsWithin m.opening.toList m.closing.toList n line cs ≠ before ++ .tag t :: after := by
    rw [segmentsWithin_none n line hf]
    rcases before with _ | ⟨s, before⟩ <;> simp
  induction n generalizing line cs before with
  | zero =>
    obtain rfl := List.eq_nil_of_length_eq_zero (Nat.le_zero.mp hn)
    exact absurd h (hnone (find?_nil m))
  | succ n ih =>
    rcases hf : find? m.opening.toList m.closing.toList cs with _ | f
    · exact absurd h (hnone hf)
    · have hlt := length_rest_lt hf
      rw [segmentsWithin, hf] at h
      rcases before with _ | ⟨s, _ | ⟨s', before⟩⟩
      · cases (List.cons.inj h).1
      · obtain ⟨hs, h⟩ := List.cons.inj h
        obtain ⟨htag, -⟩ := List.cons.inj h
        exact ⟨[], f, .tag hf .here, by rw [← hs, ← htag]; rfl⟩
      · obtain ⟨hs, h⟩ := List.cons.inj h
        obtain ⟨hs', h⟩ := List.cons.inj h
        obtain ⟨fs, g, hreaches, hsegments⟩ := ih (by omega) h
        refine ⟨f :: fs, g, .tag hf hreaches, ?_⟩
        rw [List.cons_append, segmentsOf, hsegments, ← hs, ← hs']
        rfl

end Tag

namespace Markers

/-- A tag of a template, with the tags before it. -/
structure Occurrence (m : Markers) (source : String) where
  tags : List Found
  tag : Found
  reached : Reaches m.opening.toList m.closing.toList source.toList (tags ++ [tag]) tag.body.rest

namespace Occurrence

variable {m : Markers} {source : String} (o : m.Occurrence source)

/-- The template up to the end of the tag. -/
def text : String := .ofList (textOf m.opening.toList m.closing.toList (o.tags ++ [o.tag]))

/-- What the scan says about the template up to the end of the tag. -/
def segments : List Segment := segmentsOf m.opening.toList m.closing.toList 1 (o.tags ++ [o.tag])

/-- The symbols right after the opening marker of the tag. -/
def symbols : List Char := (o.tag.behind m.closing.toList).takeWhile isSymbol

/-- The tag is recognised in the same way whatever comes after it. -/
def Settled : Prop := ∀ further, ∃ more, m.scan (o.text ++ further) = o.segments ++ more

lemma exists_find? : ∃ cs, find? m.opening.toList m.closing.toList cs = some o.tag := by
  obtain ⟨⟨cs, -, hfind⟩, -⟩ := o.reached.snoc
  exact ⟨cs, hfind⟩

/-- Tags as they are written are found whatever comes after them. -/
lemma scan_of_written {fs : List Found}
    (h : ∀ f ∈ fs, f.Written m.opening.toList m.closing.toList) (hc : Solid m.closing.toList)
    (further : String) : ∃ more,
      m.scan (.ofList (textOf m.opening.toList m.closing.toList fs) ++ further) =
        segmentsOf m.opening.toList m.closing.toList 1 fs ++ more := by
  have hsource : (String.ofList (textOf m.opening.toList m.closing.toList fs) ++ further).toList =
      textOf m.opening.toList m.closing.toList fs ++ further.toList := by simp
  exact ⟨_, scan_written hsource h hc⟩

lemma tags_written (hs : Symbolic m.closing.toList) :
    ∀ f ∈ o.tags, f.Written m.opening.toList m.closing.toList := by
  obtain ⟨⟨_, hreaches, -⟩, -⟩ := o.reached.snoc
  exact hreaches.written hs.solid (o.reached.firm hs)

lemma settled_of_firm (hs : Symbolic m.closing.toList) (h : o.tag.Firm m.closing.toList) :
    o.Settled := by
  obtain ⟨_, hfind⟩ := o.exists_find?
  have hwritten : ∀ f ∈ o.tags ++ [o.tag], f.Written m.opening.toList m.closing.toList := by
    intro f hf
    rcases List.mem_append.mp hf with hf | hf
    · exact o.tags_written hs f hf
    · rw [List.mem_singleton.mp hf]
      exact written_of_find? hs.solid hfind h
  exact scan_of_written hwritten hs.solid

/-- A blank and another closing marker after a tag without content move its end. -/
lemma padded_ne_of_settled (hs : Symbolic m.closing.toList) (h : o.Settled) :
    o.tag.body.padded ≠ [] := by
  intro hnil
  obtain ⟨_, hfind⟩ := o.exists_find?
  have hwritten : ∀ f ∈ o.tags ++ [o.tag.extended m.closing.toList],
      f.Written m.opening.toList m.closing.toList := by
    intro f hf
    rcases List.mem_append.mp hf with hf | hf
    · exact o.tags_written hs f hf
    · rw [List.mem_singleton.mp hf]
      exact extended_written hs hfind
  obtain ⟨more, hmore⟩ := h (.ofList (' ' :: m.closing.toList))
  obtain ⟨more', hmore'⟩ := scan_of_written hwritten hs.solid ""
  have htext : o.text ++ .ofList (' ' :: m.closing.toList) =
      .ofList (textOf m.opening.toList m.closing.toList
        (o.tags ++ [o.tag.extended m.closing.toList])) ++ "" := by
    simp only [Body.padded, List.append_eq_nil_iff] at hnil
    apply String.toList_inj.mp
    simp [text, textOf, Found.inside, Found.extended, hnil]
  rw [htext, hmore', segments, segmentsOf_append, segmentsOf_append, List.append_assoc,
    List.append_assoc] at hmore
  obtain ⟨-, hmarker⟩ : _ ∧ String.ofList (o.tag.extended m.closing.toList).marker =
      String.ofList o.tag.marker := by
    have htags := List.append_cancel_left hmore
    simp only [segmentsOf, List.cons_append, List.cons.injEq, Segment.tag.injEq, Tag.mk.injEq]
      at htags
    exact ⟨htags.1, htags.2.1.1⟩
  have hnone : o.tag.marker ++ m.closing.toList = o.tag.marker :=
    String.ofList_injective hmarker
  exact hs.ne (List.append_right_eq_self.mp hnone)

lemma settled_iff (hs : Symbolic m.closing.toList) :
    o.Settled ↔ o.tag.body.padded ≠ [] := by
  refine ⟨o.padded_ne_of_settled hs, fun hne => ?_⟩
  obtain ⟨_, hfind⟩ := o.exists_find?
  exact o.settled_of_firm hs ((firm_iff_padded hs hfind).mpr hne)

/-- A tag ends at the first closing marker and stays as it is, unless the symbols after its opening
marker hold a closing one. -/
lemma ends_iff_symbols (hs : Symbolic m.closing.toList) :
    o.tag.EndsFirst m.closing.toList ∧ o.Settled ↔ ¬ m.closing.toList <:+: o.symbols := by
  obtain ⟨_, hfind⟩ := o.exists_find?
  rw [endsFirst_iff hs hfind, o.settled_iff hs, symbols]
  rcases find?_firm_or_bare hs hfind with hfirm | hbare
  · rw [takeWhile_firm hs hfind hfirm]
    exact and_iff_left (hfirm.padded_ne hs)
  · exact ⟨fun h => absurd hbare.padded h.2,
      fun h => absurd (infix_takeWhile_bare hs hfind hbare) h⟩

end Occurrence

variable {source : String}

lemma symbolic_standard : Symbolic standard.closing.toList where
  ne := by decide
  symbol := List.all_eq_true.mp (by decide +kernel)
  apart _ := onlyLast_pair (by decide)

/-- **Where tags end**: the content of a tag holds no closing marker, and the tag ends at the first
closing marker after its opening one just when its type marker holds none. It is recognised in the
same way whatever comes after it just when there is anything between the type marker and the closing
one. Both are so unless a closing marker is among the symbols right after the opening marker. -/
theorem scan_closing (source : String) (before after : List Segment) (t : Tag)
    (h : standard.scan source = before ++ .tag t :: after) :
    ∃ o : standard.Occurrence source, o.segments = before ++ [.tag t] ∧
      ¬ standard.closing.toList <:+: t.content.toList ∧
      (o.tag.EndsFirst standard.closing.toList ↔
        ¬ standard.closing.toList <:+: t.marker.toList) ∧
      (o.Settled ↔ o.tag.body.padded ≠ []) ∧
      (o.tag.EndsFirst standard.closing.toList ∧ o.Settled ↔
        ¬ standard.closing.toList <:+: o.symbols) := by
  obtain ⟨fs, f, hreaches, hsegments⟩ := exists_reaches (Nat.le_refl _) h
  let o : standard.Occurrence source := ⟨fs, f, hreaches⟩
  obtain ⟨_, hfind⟩ := o.exists_find?
  -- the last segment is the tag that was found last
  have ht : t.marker.toList = f.marker ∧ t.content.toList = f.body.content := by
    rw [segmentsOf_append] at hsegments
    have hlast := congrArg List.getLast? hsegments
    simp only [segmentsOf, List.getLast?_append, List.getLast?_cons_cons, List.getLast?_singleton,
      Option.some_or, Option.some.injEq, Segment.tag.injEq] at hlast
    rw [← hlast]
    exact ⟨String.toList_ofList, String.toList_ofList⟩
  refine ⟨o, hsegments, ?_, ?_, o.settled_iff symbolic_standard,
    o.ends_iff_symbols symbolic_standard⟩
  · rw [ht.2]
    exact content_of_find? symbolic_standard hfind
  · rw [ht.1]
    exact endsFirst_iff symbolic_standard hfind

theorem scan_closing_spaced :
    standard.scan "<%= a %> mid <%= b %>" = [.literal "", .tag ⟨"=", "a", 1⟩, .literal " mid "] ++
      .tag ⟨"=", "b", 1⟩ :: [.literal ""] ∧
    ∃ o : standard.Occurrence "<%= a %> mid <%= b %>",
      o.segments = [.literal "", .tag ⟨"=", "a", 1⟩, .literal " mid "] ++ [.tag ⟨"=", "b", 1⟩] ∧
      ¬ standard.closing.toList <:+: "b".toList ∧
      (o.tag.EndsFirst standard.closing.toList ↔ ¬ standard.closing.toList <:+: "=".toList) ∧
      (o.Settled ↔ o.tag.body.padded ≠ []) ∧
      (o.tag.EndsFirst standard.closing.toList ∧ o.Settled ↔
        ¬ standard.closing.toList <:+: o.symbols) := by
  have hscan : standard.scan "<%= a %> mid <%= b %>" =
      [.literal "", .tag ⟨"=", "a", 1⟩, .literal " mid "] ++
        .tag ⟨"=", "b", 1⟩ :: [.literal ""] := by decide +kernel
  exact ⟨hscan, scan_closing _ _ _ _ hscan⟩

/-- A tag whose type marker has taken a closing marker in. -/
def taken : standard.Occurrence "<%=%> a <%= b %>" where
  tags := []
  tag := ⟨[], "=%>".toList, ⟨[' '], "a <%= b".toList, [' '], []⟩⟩
  reached := .tag (by decide +kernel) .here

/-- A tag without content does not end at its closing marker any more when another one follows. -/
theorem scan_closing_taken :
    standard.scan "<%=%>" = [.literal "", .tag ⟨"=", "", 1⟩, .literal ""] ∧
    standard.scan ("<%=%>" ++ " a <%= b %>") = taken.segments ++ [.literal ""] ∧
    taken.segments = [.literal "", .tag ⟨"=%>", "a <%= b", 1⟩] ∧
    standard.closing.toList <:+: "=%>".toList ∧
    ¬ taken.tag.EndsFirst standard.closing.toList := by
  refine ⟨by decide +kernel, by decide +kernel, by decide +kernel, ⟨['='], [], rfl⟩,
    fun hfirst => ?_⟩
  have hle := hfirst ['='] " a <%= b %>".toList (by decide +kernel)
  exact absurd hle (by decide +kernel)

end Markers

end Stencil
