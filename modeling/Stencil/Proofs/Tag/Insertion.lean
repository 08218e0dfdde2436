import Mathlib.Data.List.DropRight
import Mathlib.Data.List.Forall2
import Stencil.Proofs.Tag.Written

/-!
Tags put into the literal text of a template.

A tag put there is found as it is written, and the tags before and behind it are found as before.
For the tags before it this rests on the closing marker: no more of the text is taken for a tag when
more text follows.
-/

namespace Stencil.Tag

variable {opening closing cs rest : List Char} {b : Body} {f : Found}

/-! ### Found tags are as they are written -/

/-- No closing marker begins among the blanks before an ending. -/
lemma ending?_first (hc : Solid closing) (h : ending? closing cs = some b) {u v : List Char}
    (hcs : cs = u ++ closing ++ v) : b.trail.length ≤ u.length := by
  induction cs generalizing b u with
  | nil =>
    obtain ⟨d, ds, rfl, -⟩ := hc
    simp at hcs
  | cons c cs ih =>
    rw [ending?, Option.or_eq_some_iff] at h
    rcases h with h | ⟨-, h⟩
    · simp only [Option.map_eq_some_iff, Option.ite_none_right_eq_some] at h
      obtain ⟨b', ⟨hblank, hb'⟩, rfl⟩ := h
      cases u with
      | nil =>
        -- the blank would be the first character of the closing marker
        obtain ⟨d, ds, rfl, hd⟩ := hc
        obtain ⟨rfl, -⟩ : c = d ∧ cs = ds ++ v := by simpa using hcs
        rw [hblank] at hd
        cases hd
      | cons d u =>
        obtain ⟨-, hrest⟩ : c = d ∧ cs = u ++ closing ++ v := by simpa using hcs
        exact Nat.succ_le_succ (ih hb' hrest)
    · obtain ⟨_, -, rfl⟩ := Option.map_eq_some_iff.mp h
      exact Nat.zero_le _

/-- The closing marker of a content is the first that could close it. -/
lemma content?_first (hc : Solid closing) (h : content? closing cs = some b) {u v : List Char}
    (hcs : cs = u ++ closing ++ v) : (b.content ++ b.trail).length ≤ u.length := by
  have hending {b : Body} {cs u : List Char} (h : ending? closing cs = some b)
      (hcs : cs = u ++ closing ++ v) : (b.content ++ b.trail).length ≤ u.length := by
    rw [(ending?_eq_some h).2.1]
    exact ending?_first hc h hcs
  induction cs generalizing b u with
  | nil => exact hending h hcs
  | cons c cs ih =>
    rw [content?, Option.or_eq_some_iff] at h
    rcases h with h | ⟨hnone, h⟩
    · exact hending h hcs
    · obtain ⟨b', hb', rfl⟩ := Option.map_eq_some_iff.mp h
      cases u with
      | nil =>
        have hsome : (ending? closing (c :: cs)).isSome :=
          ending?_isSome ⟨v, by simpa using hcs.symm⟩
        rw [hnone] at hsome
        cases hsome
      | cons d u =>
        obtain ⟨-, hrest⟩ : c = d ∧ cs = u ++ closing ++ v := by simpa using hcs
        exact Nat.succ_le_succ (ih hb' hrest)

lemma content?_onlyLast (hc : Solid closing) (h : content? closing cs = some b) :
    OnlyLast closing (b.content ++ b.trail ++ closing) := by
  intro u v huv
  have hfirst : (b.content ++ b.trail).length ≤ u.length :=
    content?_first hc h (v := v ++ b.rest) (by rw [(content?_eq_some h).2.1, huv]; simp)
  have hlen := congrArg List.length huv
  simp only [List.length_append] at hfirst hlen
  exact List.eq_nil_of_length_eq_zero (by omega)

/-- The blanks before an ending that has no content are all in front of it. -/
lemma body?_tight (hc : Solid closing) (h : body? closing cs = some b) :
    OnlyLast closing (b.content ++ b.trail ++ closing) ∧ (b.content = [] → b.trail = []) := by
  induction cs generalizing b with
  | nil =>
    rw [body?] at h
    obtain ⟨-, hcs, -⟩ := content?_eq_some h
    have htrail : b.trail = [] := by simp_all
    exact ⟨content?_onlyLast hc h, fun _ => htrail⟩
  | cons c cs ih =>
    rw [body?, Option.or_eq_some_iff] at h
    rcases h with h | ⟨hnone, h⟩
    · simp only [Option.map_eq_some_iff, Option.ite_none_right_eq_some] at h
      obtain ⟨b', ⟨-, hb'⟩, rfl⟩ := h
      exact ih (b := b') hb'
    · refine ⟨content?_onlyLast hc h, fun hnil => ?_⟩
      obtain ⟨-, hcs, hblanks, -⟩ := content?_eq_some h
      rcases ht : b.trail with _ | ⟨d, trail⟩
      · rfl
      · rw [hnil, ht] at hcs
        obtain ⟨rfl, hrest⟩ : c = d ∧ cs = trail ++ closing ++ b.rest := by simpa using hcs
        have hblank : Text.isBlank c = true := hblanks c (by rw [ht]; exact List.mem_cons_self)
        have hsome : (body? closing cs).isSome :=
          body?_isSome_of_content? (content?_isSome ⟨trail, b.rest, hrest.symm⟩)
        simp [hblank] at hnone
        simp [hnone] at hsome

lemma marked?_body (h : marked? closing cs = some f) : ∃ cs', body? closing cs' = some f.body := by
  induction cs generalizing f with
  | nil =>
    rw [marked?] at h
    obtain ⟨b, hb, rfl⟩ := Option.map_eq_some_iff.mp h
    exact ⟨_, hb⟩
  | cons c cs ih =>
    rw [marked?, Option.or_eq_some_iff] at h
    rcases h with h | ⟨-, h⟩
    · simp only [Option.map_eq_some_iff, Option.ite_none_right_eq_some] at h
      obtain ⟨f', ⟨-, hf'⟩, rfl⟩ := h
      exact ih (f := f') hf'
    · obtain ⟨b, hb, rfl⟩ := Option.map_eq_some_iff.mp h
      exact ⟨_, hb⟩

lemma at?_marked (h : at? opening closing cs = some f) :
    ∃ cs', marked? closing cs' = some { f with before := [] } := by
  have hbefore := (at?_eq_some h).1
  rw [at?] at h
  split at h
  · rename_i rest _
    refine ⟨rest, ?_⟩
    rw [← hbefore]
    exact (Option.ite_none_right_eq_some.mp h).2
  · cases h

/-- A tag is found from its type marker on. -/
lemma find?_marked (h : find? opening closing cs = some f) :
    ∃ cs', marked? closing cs' = some { f with before := [] } := by
  induction cs generalizing f with
  | nil => exact at?_marked h
  | cons c cs ih =>
    rw [find?, Option.or_eq_some_iff] at h
    rcases h with h | ⟨-, h⟩
    · exact at?_marked h
    · obtain ⟨f', hf', rfl⟩ := Option.map_eq_some_iff.mp h
      exact ih (f := f') hf'

lemma find?_body (h : find? opening closing cs = some f) :
    ∃ cs', body? closing cs' = some f.body := by
  obtain ⟨_, hmarked⟩ := find?_marked h
  exact marked?_body (f := { f with before := [] }) hmarked

/-- The type marker ends before the first character that is no symbol. -/
def Found.Firm (closing : List Char) (f : Found) : Prop :=
  ∀ c ∈ (f.body.lead ++ f.body.content ++ f.body.trail ++ closing).head?, isSymbol c = false

/-- **A tag that is found is as it is written**, unless its type marker may go on into the closing
one. -/
theorem written_of_find? (hc : Solid closing) (h : find? opening closing cs = some f)
    (hfirm : f.Firm closing) : f.Written opening closing := by
  obtain ⟨hcs, hclean, -⟩ := find?_eq_some h
  obtain ⟨_, hbody⟩ := find?_body h
  obtain ⟨hclosing, hblank⟩ := body?_tight hc hbody
  refine ⟨⟨hclean.lead, hclean.trail, hclean.content, hblank, hclosing⟩,
    fun c hmem => isSymbol_iff.mpr (hclean.marker c hmem), hfirm, fun u v huv => ?_⟩
  have hfirst : f.before.length ≤ u.length :=
    find?_first h (v := v ++ f.inside closing ++ f.body.rest) (by rw [hcs, huv]; simp)
  have hlen := congrArg List.length huv
  simp only [List.length_append] at hlen
  exact List.eq_nil_of_length_eq_zero (by omega)

/-! ### Blanks around the content of a tag -/

/-- A text is blanks, a trimmed content and blanks, which come first where there is no content. -/
lemma exists_trimmed (cs : List Char) : ∃ lead content trail, cs = lead ++ content ++ trail ∧
    (∀ c ∈ lead, Text.isBlank c = true) ∧ (∀ c ∈ trail, Text.isBlank c = true) ∧
    Trimmed content ∧ (content = [] → trail = []) := by
  have hhead : ∀ c ∈ (cs.dropWhile Text.isBlank).head?, Text.isBlank c = false := by
    intro c hmem
    have hnot := List.head?_dropWhile_not Text.isBlank cs
    rw [Option.mem_def.mp hmem] at hnot
    exact hnot
  have hsplit : cs.takeWhile Text.isBlank ++ cs.dropWhile Text.isBlank = cs :=
    List.takeWhile_append_dropWhile
  generalize cs.dropWhile Text.isBlank = rest at hhead hsplit
  have hrest := List.rdropWhile_append_rtakeWhile (p := Text.isBlank) (l := rest)
  refine ⟨cs.takeWhile Text.isBlank, rest.rdropWhile Text.isBlank, rest.rtakeWhile Text.isBlank,
    by rw [List.append_assoc, hrest, hsplit], fun c hmem => List.mem_takeWhile_imp hmem,
    fun c hmem => List.mem_rtakeWhile_imp hmem,
    ⟨fun c hmem => ?_, fun c hmem => ?_⟩, fun hnil => ?_⟩
  · refine hhead c ?_
    rw [← hrest, List.head?_append, Option.mem_def.mp hmem]
    rfl
  · have hne : rest.rdropWhile Text.isBlank ≠ [] := by
      rintro hnil
      simp [hnil] at hmem
    have hlast := List.rdropWhile_last_not Text.isBlank rest hne
    rw [List.getLast?_eq_some_getLast hne] at hmem
    cases hmem
    simpa using hlast
  · have hblanks := List.rdropWhile_eq_nil_iff.mp hnil
    have hnone : rest = [] := by
      cases rest with
      | nil => rfl
      | cons d ds =>
        have hd := hhead d rfl
        rw [hblanks d List.mem_cons_self] at hd
        cases hd
    rw [hnone]
    rfl

/-! ### Tags before and behind a place -/

lemma find?_drop {l : List Char} (h : find? opening closing (l ++ cs) = some f)
    {r : List Char} (hbefore : f.before = l ++ r) :
    find? opening closing cs = some { f with before := r } := by
  induction l generalizing f with
  | nil =>
    obtain rfl : f.before = r := hbefore
    exact h
  | cons c l ih =>
    rw [List.cons_append, find?, Option.or_eq_some_iff] at h
    rcases h with h | ⟨-, h⟩
    · simp [(at?_eq_some h).1] at hbefore
    · obtain ⟨f', hf', rfl⟩ := Option.map_eq_some_iff.mp h
      exact ih (f := f') hf' (List.cons.inj hbefore).2

lemma find?_drop_none {l : List Char} (h : find? opening closing (l ++ cs) = none) :
    find? opening closing cs = none := by
  induction l with
  | nil => exact h
  | cons c l ih =>
    rw [List.cons_append, find?, Option.or_eq_none_iff, Option.map_eq_none_iff] at h
    exact ih h.2

/-- The tags that a scan finds first, and the text that it has before it then. -/
inductive Reaches (opening closing : List Char) : List Char → List Found → List Char → Prop
  | here {cs : List Char} : Reaches opening closing cs [] cs
  | tag {cs rest : List Char} {f : Found} {fs : List Found} : find? opening closing cs = some f →
      Reaches opening closing f.body.rest fs rest → Reaches opening closing cs (f :: fs) rest

/-- The literal text that comes first in a text. -/
def chunk (opening closing cs : List Char) : List Char :=
  match find? opening closing cs with
  | some f => f.before
  | none => cs

lemma exists_after_chunk (opening closing cs : List Char) :
    ∃ after, cs = chunk opening closing cs ++ after := by
  unfold chunk
  split
  · rename_i f hf
    exact ⟨opening ++ f.inside closing ++ f.body.rest, by simp [(find?_eq_some hf).1]⟩
  · exact ⟨[], by simp⟩

variable {fs : List Found}

lemma Reaches.eq_textOf (h : Reaches opening closing cs fs rest) :
    cs = textOf opening closing fs ++ rest := by
  induction h with
  | here => rfl
  | tag hf _ ih =>
    rw [(find?_eq_some hf).1, ih]
    simp [textOf]

lemma Reaches.written (hc : Solid closing) (h : Reaches opening closing cs fs rest)
    (hfirm : ∀ f ∈ fs, f.Firm closing) : ∀ f ∈ fs, f.Written opening closing := by
  induction h with
  | here => simp
  | tag hf _ ih =>
    obtain ⟨hfirst, hmore⟩ := List.forall_mem_cons.mp hfirm
    exact List.forall_mem_cons.mpr ⟨written_of_find? hc hf hfirst, ih hmore⟩

end Stencil.Tag

namespace Stencil

/-- The same segment, with a tag on whatever lines. -/
inductive Segment.Alike : Segment → Segment → Prop
  | literal {text : String} : Alike (.literal text) (.literal text)
  | tag {marker content : String} {line line' : ℕ} :
      Alike (.tag ⟨marker, content, line⟩) (.tag ⟨marker, content, line'⟩)

namespace Tag

variable {m : Markers} {n n' : ℕ} {cs : List Char} {fs : List Found}

/-- Apart from lines, a scan depends on its text alone. -/
lemma segmentsWithin_alike (line line' : ℕ) (hn : cs.length ≤ n) (hn' : cs.length ≤ n') :
    List.Forall₂ Segment.Alike (segmentsWithin m.opening.toList m.closing.toList n line cs)
      (segmentsWithin m.opening.toList m.closing.toList n' line' cs) := by
  induction n generalizing n' cs line line' with
  | zero =>
    obtain rfl := List.eq_nil_of_length_eq_zero (Nat.le_zero.mp hn)
    rw [segmentsWithin_none 0 line (find?_nil m), segmentsWithin_none n' line' (find?_nil m)]
    exact .cons .literal .nil
  | succ n ih =>
    rcases hf : find? m.opening.toList m.closing.toList cs with _ | f
    · rw [segmentsWithin_none _ line hf, segmentsWithin_none n' line' hf]
      exact .cons .literal .nil
    · have hlt := length_rest_lt hf
      obtain ⟨n', rfl⟩ := Nat.exists_eq_add_one_of_ne_zero (by omega : n' ≠ 0)
      rw [segmentsWithin, segmentsWithin, hf]
      exact .cons .literal (.cons .tag (ih _ _ (by omega) (by omega)))

/-- Literal text may be left out at the beginning of a scan. -/
lemma segmentsWithin_left {l r : List Char} (line line' : ℕ)
    (hchunk : chunk m.opening.toList m.closing.toList (l ++ cs) = l ++ r)
    (hn : (l ++ cs).length ≤ n) (hn' : cs.length ≤ n') :
    ∃ more more',
      segmentsWithin m.opening.toList m.closing.toList n line (l ++ cs) =
        .literal (.ofList (l ++ r)) :: more ∧
      segmentsWithin m.opening.toList m.closing.toList n' line' cs = .literal (.ofList r) :: more' ∧
      List.Forall₂ Segment.Alike more more' := by
  rcases hf : find? m.opening.toList m.closing.toList (l ++ cs) with _ | f
  · rw [chunk, hf] at hchunk
    obtain rfl : cs = r := List.append_cancel_left hchunk
    exact ⟨[], [], segmentsWithin_none n line hf, segmentsWithin_none n' line' (find?_drop_none hf),
      .nil⟩
  · rw [chunk, hf] at hchunk
    have hdrop := find?_drop hf hchunk
    have hlt := length_rest_lt hf
    have hlt' : f.body.rest.length < cs.length := length_rest_lt (f := { f with before := r }) hdrop
    obtain ⟨n, rfl⟩ := Nat.exists_eq_add_one_of_ne_zero (by omega : n ≠ 0)
    obtain ⟨n', rfl⟩ := Nat.exists_eq_add_one_of_ne_zero (by omega : n' ≠ 0)
    rw [segmentsWithin, segmentsWithin, hf, hdrop]
    dsimp only at hchunk ⊢
    rw [hchunk]
    exact ⟨_, _, rfl, rfl, .cons .tag (segmentsWithin_alike _ _ (by omega) (by omega))⟩

lemma reaches_of_none {line : ℕ} {before after : List Segment} {text : String}
    (hnone : find? m.opening.toList m.closing.toList cs = none)
    (h : segmentsWithin m.opening.toList m.closing.toList n line cs =
      before ++ .literal text :: after) :
    before = [] ∧ chunk m.opening.toList m.closing.toList cs = text.toList := by
  rw [segmentsWithin_none n line hnone] at h
  obtain ⟨rfl, htext⟩ : before = [] ∧ Segment.literal (.ofList cs) = .literal text := by
    rcases before with _ | ⟨s, before⟩
    · exact ⟨rfl, (List.cons.inj h).1⟩
    · simp at h
  cases htext
  exact ⟨rfl, by rw [chunk, hnone, String.toList_ofList]⟩

/-- The literal texts of a scan are what it has before it after some tags. -/
lemma reaches_of_segmentsWithin {line : ℕ} {before after : List Segment} {text : String}
    (hn : cs.length ≤ n) (h : segmentsWithin m.opening.toList m.closing.toList n line cs =
      before ++ .literal text :: after) :
    ∃ fs rest, Reaches m.opening.toList m.closing.toList cs fs rest ∧
      chunk m.opening.toList m.closing.toList rest = text.toList ∧
      before.length = 2 * fs.length := by
  induction n generalizing line cs before with
  | zero =>
    obtain rfl := List.eq_nil_of_length_eq_zero (Nat.le_zero.mp hn)
    obtain ⟨rfl, hchunk⟩ := reaches_of_none (find?_nil m) h
    exact ⟨[], [], .here, hchunk, rfl⟩
  | succ n ih =>
    rcases hf : find? m.opening.toList m.closing.toList cs with _ | f
    · obtain ⟨rfl, hchunk⟩ := reaches_of_none hf h
      exact ⟨[], cs, .here, hchunk, rfl⟩
    · have hlt := length_rest_lt hf
      rw [segmentsWithin, hf] at h
      rcases before with _ | ⟨s, _ | ⟨t, before⟩⟩
      · cases (List.cons.inj h).1
        exact ⟨[], cs, .here, by rw [chunk, hf, String.toList_ofList], rfl⟩
      · cases (List.cons.inj (List.cons.inj h).2).1
      · obtain ⟨fs, rest, hreaches, hchunk, hlen⟩ :=
          ih (by omega) (List.cons.inj (List.cons.inj h).2).2
        refine ⟨f :: fs, rest, .tag hf hreaches, hchunk, ?_⟩
        simp only [List.length_cons] at hlen ⊢
        omega

end Tag

namespace Markers

variable {m : Markers} {source : String}

/-- A place in the literal text of a template: the tags before it, the literal text that it cuts in
two, and all that comes after it. -/
structure Place (m : Markers) (source : String) where
  tags : List Tag.Found
  left : List Char
  right : List Char
  after : List Char
  reached : Tag.Reaches m.opening.toList m.closing.toList source.toList tags (left ++ after)
  chunk_eq : Tag.chunk m.opening.toList m.closing.toList (left ++ after) = left ++ right

/-- Every literal text of a scan may be cut in two anywhere: the scan reaches it by as many tags as
there are literal texts before it. -/
theorem Place.exists_of_scan {before after : List Segment} {l r : String}
    (h : m.scan source = before ++ .literal (l ++ r) :: after) :
    ∃ p : m.Place source, p.left = l.toList ∧ p.right = r.toList ∧
      before.length = 2 * p.tags.length := by
  obtain ⟨fs, rest, hreaches, hchunk, hlen⟩ := Tag.reaches_of_segmentsWithin (Nat.le_refl _) h
  rw [String.toList_append] at hchunk
  obtain ⟨after, hafter⟩ := Tag.exists_after_chunk m.opening.toList m.closing.toList rest
  rw [hchunk, List.append_assoc] at hafter
  rw [hafter] at hreaches hchunk
  exact ⟨⟨fs, l.toList, r.toList, r.toList ++ after, hreaches, hchunk⟩, rfl, rfl, hlen⟩

/-- The template with a text put in at the place. -/
def Place.insert (p : m.Place source) (text : String) : String :=
  .ofList (Tag.textOf m.opening.toList m.closing.toList p.tags ++ p.left ++ text.toList ++ p.after)

/-- A comment tag with the given text. -/
def comment (m : Markers) (text : String) : String := m.opening ++ "#" ++ text ++ m.closing

/-- The comment tag may be put in at the place: no marker is made across its ends or inside it, and
the tags before the place are closed by the first closing marker whatever follows. -/
structure Place.Admits (p : m.Place source) (text : String) : Prop where
  solid : Tag.Solid m.closing.toList
  firm : ∀ f ∈ p.tags, f.Firm m.closing.toList
  opening : Tag.OnlyLast m.opening.toList (p.left ++ m.opening.toList)
  blank : text.toList.head?.any Text.isBlank = true
  closing : Tag.OnlyLast m.closing.toList (text.toList ++ m.closing.toList)

lemma Place.eq_insert (p : m.Place source) : p.insert "" = source := by
  apply String.toList_inj.mp
  rw [p.reached.eq_textOf]
  simp [Place.insert]

/-- The comment that is put in is a tag as it is written. -/
lemma Place.Admits.exists_written {p : m.Place source} {text : String} (h : p.Admits text) :
    ∃ f : Tag.Found, f.Written m.opening.toList m.closing.toList ∧ f.before = p.left ∧
      f.marker = ['#'] ∧ f.body.rest = p.after ∧
      m.opening.toList ++ f.inside m.closing.toList = (m.comment text).toList := by
  obtain ⟨lead, content, trail, htext, hlead, htrail, hcontent, hblank⟩ :=
    Tag.exists_trimmed text.toList
  have hclosing := h.closing
  rw [htext] at hclosing
  refine ⟨⟨p.left, ['#'], ⟨lead, content, trail, p.after⟩⟩, ⟨⟨hlead, htrail, hcontent, hblank, ?_⟩,
    ?_, ?_, h.opening⟩, rfl, rfl, rfl, ?_⟩
  · intro u v huv
    refine hclosing (lead ++ u) v ?_
    simp only [List.append_assoc] at huv ⊢
    rw [huv]
  · intro c hmem
    rw [List.mem_singleton.mp hmem]
    decide +kernel
  · have hfirst := h.blank
    rw [htext] at hfirst
    intro c hmem
    rcases hcs : lead ++ content ++ trail with _ | ⟨d, ds⟩
    · simp [hcs] at hfirst
    · rw [hcs] at hfirst
      obtain rfl : d = c := by simpa [hcs] using hmem
      have hd : Text.isBlank d = true := by simpa using hfirst
      simp [Tag.isSymbol, hd]
  · simp [Tag.Found.inside, comment, htext]

/-- **A comment in a template** divides the literal text at its place, and leaves the tags before
and behind it as they are. -/
theorem Place.scan_insert (p : m.Place source) {text : String} (h : p.Admits text) :
    ∃ content line more more',
      m.scan source = Tag.segmentsOf m.opening.toList m.closing.toList 1 p.tags ++
        .literal (.ofList p.left ++ .ofList p.right) :: more ∧
      m.scan (p.insert (m.comment text)) =
        Tag.segmentsOf m.opening.toList m.closing.toList 1 p.tags ++
          .literal (.ofList p.left) :: .tag ⟨"#", content, line⟩ :: .literal (.ofList p.right) ::
            more' ∧
      List.Forall₂ Segment.Alike more more' := by
  obtain ⟨f, hf, hbefore, hmarker, hrest, hinside⟩ := h.exists_written
  have hwritten := p.reached.written h.solid h.firm
  have hsource := p.reached.eq_textOf
  -- from the place on, the comment is what is found first
  have hinsert : (p.insert (m.comment text)).toList =
      Tag.textOf m.opening.toList m.closing.toList p.tags ++
        (p.left ++ m.opening.toList ++ f.inside m.closing.toList ++ p.after) := by
    simp [insert, ← hinside]
  have hfind := hf.find?_eq h.solid
  rw [hbefore, hrest] at hfind
  generalize p.left ++ m.opening.toList ++ f.inside m.closing.toList ++ p.after = cs
    at hinsert hfind
  have hscan := scan_written hsource hwritten h.solid
  have hscan' := scan_written hinsert hwritten h.solid
  -- there is fuel enough behind the tags in both templates
  have hfuel := length_rest_le hsource
  have hfuel' := length_rest_le hinsert
  have hlt : p.after.length < cs.length := hrest ▸ Tag.length_rest_lt hfind
  obtain ⟨k, hk⟩ := Nat.exists_eq_add_one_of_ne_zero
    (by omega : (p.insert (m.comment text)).toList.length - p.tags.length ≠ 0)
  obtain ⟨more, more', hmore, hmore', halike⟩ := Tag.segmentsWithin_left
    (1 + Text.breaks (Tag.textOf m.opening.toList m.closing.toList p.tags))
    (1 + Text.breaks (Tag.textOf m.opening.toList m.closing.toList p.tags) + Text.breaks f.before +
      f.breaks m.opening.toList m.closing.toList) p.chunk_eq hfuel
    (by omega : p.after.length ≤ k)
  refine ⟨.ofList f.body.content,
    1 + Text.breaks (Tag.textOf m.opening.toList m.closing.toList p.tags) + Text.breaks f.before,
    more, more', ?_, ?_, halike⟩
  · rw [hscan, hmore, String.ofList_append]
  · rw [hscan', hk, Tag.segmentsWithin, hfind]
    dsimp only
    rw [hrest, hmore', hbefore, hmarker]

end Markers

end Stencil
