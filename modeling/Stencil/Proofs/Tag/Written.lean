import Stencil.Proofs.Tag.Decomposition

/-!
Tags that are found as they are written.

A scan takes as many symbols and blanks as it can, and as little content as it can. So a tag is
found as it is written where no symbol comes after its type marker, no blank is left at the ends of
its content, and each of the two markers comes no earlier than it is meant to.
-/

namespace Stencil.Tag

/-- The word comes in the text at its end only. -/
def OnlyLast (word text : List Char) : Prop := ∀ u v, text = u ++ word ++ v → v = []

/-- The closing marker does not begin with a blank, which the content could take. -/
def Solid (closing : List Char) : Prop := ∃ c cs, closing = c :: cs ∧ Text.isBlank c = false

/-- What has to hold of the parts of a tag from its content on. -/
structure Body.Written (closing : List Char) (b : Body) : Prop where
  lead : ∀ c ∈ b.lead, Text.isBlank c = true
  trail : ∀ c ∈ b.trail, Text.isBlank c = true
  content : Trimmed b.content
  /-- Blanks alone come before the content. -/
  blank : b.content = [] → b.trail = []
  closing : OnlyLast closing (b.content ++ b.trail ++ closing)

/-- What has to hold of a tag and of the text before it. -/
structure Found.Written (opening closing : List Char) (f : Found) : Prop where
  body : f.body.Written closing
  marker : ∀ c ∈ f.marker, isSymbol c = true
  /-- The type marker ends before the first character that is no symbol. -/
  firm : ∀ c ∈ (f.body.lead ++ f.body.content ++ f.body.trail ++ closing).head?,
    isSymbol c = false
  opening : OnlyLast opening (f.before ++ opening)

variable {opening closing before marker lead content trail cs rest : List Char} {b : Body}

lemma ending?_written (hc : Solid closing) (ht : ∀ c ∈ trail, Text.isBlank c = true) :
    ending? closing (trail ++ closing ++ rest) = some ⟨[], [], trail, rest⟩ := by
  obtain ⟨c, cs, rfl, hblank⟩ := hc
  induction trail with
  | nil =>
    have hpre : (c :: cs).isPrefixOf? (c :: cs ++ rest) = some rest :=
      isPrefixOf?_eq_some.mpr rfl
    rw [List.cons_append] at hpre
    simp [ending?, hblank, hpre]
  | cons d trail ih =>
    have hd : Text.isBlank d = true := ht d List.mem_cons_self
    have hrest := ih fun c hc => ht c (List.mem_cons_of_mem _ hc)
    simp only [List.cons_append, List.append_assoc] at hrest ⊢
    rw [ending?, if_pos hd, hrest]
    rfl

/-- No ending begins inside the content, since the blanks before it would take the content in. -/
lemma ending?_content (rest : List Char) (hne : content ≠ [])
    (hlast : ∀ c ∈ content.getLast?, Text.isBlank c = false)
    (hclosing : OnlyLast closing (content ++ trail ++ closing)) :
    ending? closing (content ++ trail ++ closing ++ rest) = none := by
  rcases h : ending? closing (content ++ trail ++ closing ++ rest) with _ | b
  · rfl
  obtain ⟨-, -, hcs, hblanks⟩ := ending?_eq_some h
  have hpre : content <+: b.trail := by
    have hwhole : content <+: b.trail ++ closing ++ b.rest :=
      hcs ▸ ⟨trail ++ closing ++ rest, by simp⟩
    have htrail : b.trail <+: b.trail ++ closing ++ b.rest := ⟨closing ++ b.rest, by simp⟩
    refine List.prefix_of_prefix_length_le hwhole htrail ?_
    rcases List.append_eq_append_iff.mp hcs with ⟨w, hw, -⟩ | ⟨w, hw, -⟩
    · have hlen := congrArg List.length hw
      simp only [List.length_append] at hlen
      omega
    · obtain rfl := hclosing _ _ hw
      have hlen := congrArg List.length hw
      simp only [List.length_append, List.length_nil] at hlen
      omega
  have hmem := hblanks _ (hpre.subset (List.getLast_mem hne))
  have hnot := hlast _ (List.getLast?_eq_some_getLast hne)
  rw [hmem] at hnot
  cases hnot

lemma OnlyLast.of_cons {word : List Char} {c : Char} (h : OnlyLast word (c :: cs)) :
    OnlyLast word cs := fun u v huv => h (c :: u) v (by rw [huv]; rfl)

lemma content?_of_ending (h : ending? closing cs = some b) : content? closing cs = some b := by
  cases cs with
  | nil => exact h
  | cons c cs => rw [content?, h, Option.some_or]

lemma content?_written (hc : Solid closing) (ht : ∀ c ∈ trail, Text.isBlank c = true)
    (hlast : ∀ c ∈ content.getLast?, Text.isBlank c = false)
    (hclosing : OnlyLast closing (content ++ trail ++ closing)) :
    content? closing (content ++ trail ++ closing ++ rest) = some ⟨[], content, trail, rest⟩ := by
  induction content with
  | nil => exact content?_of_ending (ending?_written hc ht)
  | cons d content ih =>
    have hnone := ending?_content rest (by simp) hlast hclosing
    have hlast' : ∀ c ∈ content.getLast?, Text.isBlank c = false := by
      cases content with
      | nil => simp
      | cons e content => simpa using hlast
    have hrest := ih hlast' hclosing.of_cons
    simp only [List.cons_append] at hnone hrest ⊢
    rw [content?, hnone, hrest]
    rfl

lemma body?_of_content (h : content? closing cs = some b)
    (hhead : ∀ c ∈ cs.head?, Text.isBlank c = false) : body? closing cs = some b := by
  cases cs with
  | nil => exact h
  | cons c cs =>
    have hc : Text.isBlank c = false := hhead c rfl
    simp [body?, hc, h]

lemma Body.Written.body?_eq (h : b.Written closing) (hc : Solid closing) :
    body? closing (b.lead ++ b.content ++ b.trail ++ closing ++ b.rest) = some b := by
  obtain ⟨lead, content, trail, rest⟩ := b
  have hlead := h.lead
  have hcontent : content? closing (content ++ trail ++ closing ++ rest) =
      some ⟨[], content, trail, rest⟩ := content?_written hc h.trail h.content.last h.closing
  have hhead : ∀ c ∈ (content ++ trail ++ closing ++ rest).head?, Text.isBlank c = false := by
    rcases content with _ | ⟨d, content⟩
    · obtain ⟨d, ds, rfl, hd⟩ := hc
      have htrail : trail = [] := h.blank rfl
      simpa [htrail] using hd
    · exact h.content.head
  simp only at hlead
  clear h
  induction lead with
  | nil => exact body?_of_content hcontent hhead
  | cons d lead ih =>
    have hd : Text.isBlank d = true := hlead d List.mem_cons_self
    have hrest := ih fun c hc => hlead c (List.mem_cons_of_mem _ hc)
    simp only [List.cons_append] at hrest ⊢
    rw [body?, if_pos hd, hrest]
    rfl

lemma marked?_of_body (h : body? closing cs = some b)
    (hhead : ∀ c ∈ cs.head?, isSymbol c = false) : marked? closing cs = some ⟨[], [], b⟩ := by
  cases cs with
  | nil => simp [marked?, h]
  | cons c cs =>
    have hc : isSymbol c = false := hhead c rfl
    simp [marked?, hc, h]

lemma marked?_written (hbody : b.Written closing) (hc : Solid closing)
    (hmarker : ∀ c ∈ marker, isSymbol c = true)
    (hfirm : ∀ c ∈ (b.lead ++ b.content ++ b.trail ++ closing).head?, isSymbol c = false) :
    marked? closing (marker ++ b.lead ++ b.content ++ b.trail ++ closing ++ b.rest) =
      some ⟨[], marker, b⟩ := by
  induction marker with
  | nil =>
    refine marked?_of_body (hbody.body?_eq hc) fun c hmem => hfirm c ?_
    obtain ⟨d, ds, rfl, -⟩ := hc
    simpa only [List.nil_append, List.head?_append, Option.or_assoc, List.head?_cons,
      Option.some_or] using hmem
  | cons d marker ih =>
    have hd : isSymbol d = true := hmarker d List.mem_cons_self
    have hrest := ih fun c hc => hmarker c (List.mem_cons_of_mem _ hc)
    simp only [List.cons_append] at hrest ⊢
    rw [marked?, if_pos hd, hrest]
    rfl

/-- The opening marker begins nowhere before its place. -/
lemma at?_eq_none_of_onlyLast {d : Char} (closing rest : List Char)
    (h : OnlyLast opening (d :: before ++ opening)) :
    at? opening closing (d :: before ++ opening ++ rest) = none := by
  have hnot : ¬ opening <+: d :: before ++ opening ++ rest := by
    intro hpre
    have hwhole : d :: before ++ opening <+: d :: before ++ opening ++ rest := ⟨rest, rfl⟩
    obtain ⟨v, hv⟩ := List.prefix_of_prefix_length_le hpre hwhole
      (by simp only [List.length_append, List.length_cons]; omega)
    obtain rfl := h [] v (by rw [List.nil_append, hv])
    have hlen := congrArg List.length hv
    simp only [List.append_nil, List.length_append, List.length_cons] at hlen
    omega
  rw [at?]
  split
  · rename_i w hw
    exact (hnot ⟨w, (isPrefixOf?_eq_some.mp hw).symm⟩).elim
  · rfl

lemma find?_of_at {f : Found} (h : at? opening closing (opening ++ rest) = some f)
    (hopening : OnlyLast opening (before ++ opening)) :
    find? opening closing (before ++ opening ++ rest) =
      some { f with before := before ++ f.before } := by
  induction before with
  | nil =>
    rw [List.nil_append]
    cases hcs : opening ++ rest with
    | nil =>
      rw [hcs] at h
      exact h
    | cons c cs =>
      rw [hcs] at h
      rw [find?, h, Option.some_or]
      rfl
  | cons d before ih =>
    have hnone := at?_eq_none_of_onlyLast closing rest hopening
    have hrest := ih hopening.of_cons
    simp only [List.cons_append] at hnone hrest ⊢
    rw [find?, hnone, hrest]
    rfl

/-- **A tag is found as it is written.** -/
theorem Found.Written.find?_eq {f : Found} (h : f.Written opening closing) (hc : Solid closing) :
    find? opening closing (f.before ++ opening ++ f.inside closing ++ f.body.rest) = some f := by
  have hmarked := marked?_written h.body hc h.marker h.firm
  have hoccurs : occurs closing (f.inside closing ++ f.body.rest) = true :=
    occurs_iff.mpr ⟨f.marker ++ f.body.lead ++ f.body.content ++ f.body.trail, f.body.rest, rfl⟩
  have hat : at? opening closing (opening ++ (f.inside closing ++ f.body.rest)) =
      some ⟨[], f.marker, f.body⟩ := by
    rw [at?, isPrefixOf?_eq_some.mpr rfl]
    dsimp only
    rw [if_pos hoccurs]
    exact hmarked
  have hfind := find?_of_at hat h.opening
  rw [List.append_nil] at hfind
  rw [List.append_assoc]
  exact hfind

/-- A text without a word of two different characters cannot begin one either. -/
lemma onlyLast_pair {a b : Char} {text : List Char} (hab : a ≠ b) (h : ¬ [a, b] <:+: text) :
    OnlyLast [a, b] (text ++ [a, b]) := by
  intro u v huv
  rcases List.append_eq_append_iff.mp huv with ⟨w, hw, hv⟩ | ⟨w, hw, -⟩
  · match w, hv with
    | [], _ => exact (h ⟨u, [], by simpa using hw⟩).elim
    | [c], hv =>
      obtain ⟨rfl, -⟩ : a = c ∧ [b] = v := by simpa using hv
      have hlast := congrArg List.getLast? hw
      simp [hab.symm] at hlast
    | [c, d], hv =>
      obtain ⟨-, -, hnil⟩ : a = c ∧ b = d ∧ v = [] := by simpa using hv
      exact hnil
    | _ :: _ :: _ :: _, hv => simp at hv
  · exact (h ⟨u, w, hw.symm⟩).elim

/-! ### Tags in turn -/

/-- The tag with another text after it. -/
def Found.onto (f : Found) (rest : List Char) : Found := { f with body := { f.body with rest } }

lemma Found.Written.onto {f : Found} (h : f.Written opening closing) (rest : List Char) :
    (f.onto rest).Written opening closing :=
  ⟨⟨h.body.lead, h.body.trail, h.body.content, h.body.blank, h.body.closing⟩, h.marker, h.firm,
    h.opening⟩

/-- The text of tags in turn, each with the literal text before it. -/
def textOf (opening closing : List Char) (fs : List Found) : List Char :=
  fs.flatMap fun f => f.before ++ opening ++ f.inside closing

lemma breaks_textOf_cons (f : Found) (fs : List Found) :
    Text.breaks (textOf opening closing (f :: fs)) =
      Text.breaks f.before + f.breaks opening closing +
        Text.breaks (textOf opening closing fs) := by
  simp only [textOf, List.flatMap_cons, Found.inside, Found.breaks, Text.breaks_append]
  omega

/-- What a scan from the given line says about tags in turn. -/
def segmentsOf (opening closing : List Char) : ℕ → List Found → List Segment
  | _, [] => []
  | line, f :: fs =>
    .literal (.ofList f.before) ::
      .tag ⟨.ofList f.marker, .ofList f.body.content, line + Text.breaks f.before⟩ ::
      segmentsOf opening closing (line + Text.breaks f.before + f.breaks opening closing) fs

/-- Tags that are found as they are written are scanned one after the other. -/
theorem segmentsWithin_written {n : ℕ} (line : ℕ) {fs : List Found}
    (h : ∀ f ∈ fs, f.Written opening closing) (hc : Solid closing) (hn : fs.length ≤ n)
    (rest : List Char) :
    segmentsWithin opening closing n line (textOf opening closing fs ++ rest) =
      segmentsOf opening closing line fs ++
        segmentsWithin opening closing (n - fs.length)
          (line + Text.breaks (textOf opening closing fs)) rest := by
  induction fs generalizing n line with
  | nil => simp [textOf, segmentsOf]
  | cons f fs ih =>
    rw [List.length_cons] at hn
    obtain ⟨n, rfl⟩ := Nat.exists_eq_add_one_of_ne_zero (n := n) (by omega)
    have hf : find? opening closing (textOf opening closing (f :: fs) ++ rest) =
        some (f.onto (textOf opening closing fs ++ rest)) := by
      have hfind := ((h f List.mem_cons_self).onto (textOf opening closing fs ++ rest)).find?_eq hc
      simpa [textOf, Found.onto, Found.inside] using hfind
    have hrest := ih (line + Text.breaks f.before + f.breaks opening closing)
      (fun g hg => h g (List.mem_cons_of_mem _ hg)) (n := n) (by omega)
    rw [segmentsWithin, hf, breaks_textOf_cons, ← Nat.add_assoc, ← Nat.add_assoc,
      List.length_cons, Nat.add_sub_add_right]
    exact congrArg (_ :: _ :: ·) hrest

end Stencil.Tag

namespace Stencil

open Tag

namespace Markers

variable {m : Markers} {source : String} {fs : List Found} {rest : List Char}

lemma length_le_textOf (m : Markers) (fs : List Found) :
    fs.length ≤ (textOf m.opening.toList m.closing.toList fs).length := by
  induction fs with
  | nil => exact Nat.zero_le _
  | cons f fs ih =>
    have hne : 0 < m.opening.toList.length := by
      have := m.opening_ne
      simpa [Nat.pos_iff_ne_zero] using this
    simp only [textOf, List.flatMap_cons, List.length_append, List.length_cons] at ih ⊢
    omega

/-- The tags take no more rounds than they have characters. -/
lemma length_rest_le
    (hsource : source.toList = textOf m.opening.toList m.closing.toList fs ++ rest) :
    rest.length ≤ source.toList.length - fs.length := by
  have htags := m.length_le_textOf fs
  rw [hsource, List.length_append]
  omega

/-- The scan of a template that begins with tags as they are written. -/
lemma scan_written (hsource : source.toList = textOf m.opening.toList m.closing.toList fs ++ rest)
    (h : ∀ f ∈ fs, f.Written m.opening.toList m.closing.toList) (hc : Solid m.closing.toList) :
    m.scan source = segmentsOf m.opening.toList m.closing.toList 1 fs ++
      segmentsWithin m.opening.toList m.closing.toList (source.toList.length - fs.length)
        (1 + Text.breaks (textOf m.opening.toList m.closing.toList fs)) rest := by
  have hlen : fs.length ≤ source.toList.length := by
    have htags := m.length_le_textOf fs
    rw [hsource, List.length_append]
    omega
  have hscan := segmentsWithin_written 1 h hc hlen rest
  rwa [← hsource] at hscan

end Markers

end Stencil
