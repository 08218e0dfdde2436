import Mathlib.Tactic.Common
import Mathlib.Data.List.Infix
import Stencil.Tag.Scan

/-!
What a scan says about its source: put back together, the segments and the blanks left out of
them are the source, every tag is trimmed, and no place where a tag could begin is passed over.
-/

namespace Stencil.Tag

variable {opening closing cs : List Char}

lemma isPrefixOf?_eq_some {word cs rest : List Char} :
    word.isPrefixOf? cs = some rest ↔ cs = word ++ rest := by
  induction word generalizing cs with
  | nil => simp [List.isPrefixOf?]
  | cons a word ih =>
    cases cs with
    | nil => simp [List.isPrefixOf?]
    | cons c cs =>
      by_cases h : a = c
      · simp [List.isPrefixOf?, h, ih]
      · simp [List.isPrefixOf?, h, Ne.symm h]

lemma occurs_iff {word : List Char} : occurs word cs = true ↔ word <:+: cs := by
  induction cs with
  | nil => simp [occurs]
  | cons c cs ih => simp [occurs, ih, List.infix_cons_iff]

/-! ### The end of a tag -/

lemma ending?_eq_some {b : Body} (h : ending? closing cs = some b) :
    b.lead = [] ∧ b.content = [] ∧ cs = b.trail ++ closing ++ b.rest ∧
      ∀ c ∈ b.trail, Text.isBlank c = true := by
  induction cs generalizing b with
  | nil =>
    simp only [ending?, Option.map_eq_some_iff] at h
    obtain ⟨rest, hrest, rfl⟩ := h
    exact ⟨rfl, rfl, by simpa using isPrefixOf?_eq_some.mp hrest, by simp⟩
  | cons c cs ih =>
    simp only [ending?, Option.or_eq_some_iff, Option.map_eq_some_iff,
      Option.ite_none_right_eq_some] at h
    rcases h with ⟨b', ⟨hc, hb'⟩, rfl⟩ | ⟨-, rest, hrest, rfl⟩
    · obtain ⟨hl, hm, hs, ht⟩ := ih hb'
      refine ⟨hl, hm, by simp [hs], ?_⟩
      simpa [hc] using ht
    · exact ⟨rfl, rfl, by simpa using isPrefixOf?_eq_some.mp hrest, by simp⟩

lemma ending?_isSome (h : closing <+: cs) : (ending? closing cs).isSome := by
  obtain ⟨rest, rfl⟩ := h
  have hrest : closing.isPrefixOf? (closing ++ rest) = some rest := isPrefixOf?_eq_some.mpr rfl
  cases hcs : closing ++ rest with
  | nil => simp [ending?, ← hcs, hrest]
  | cons c cs => simp [ending?, ← hcs, hrest]

/-- A blank before an ending belongs to the ending. -/
lemma ending?_isSome_cons {c : Char} (hc : Text.isBlank c = true)
    (h : (ending? closing cs).isSome) : (ending? closing (c :: cs)).isSome := by
  simp [ending?, hc, h]

/-! ### Content -/

/-- Neither the first nor the last character is a blank. -/
structure Trimmed (cs : List Char) : Prop where
  head : ∀ c ∈ cs.head?, Text.isBlank c = false
  last : ∀ c ∈ cs.getLast?, Text.isBlank c = false

lemma content?_isSome (h : closing <:+: cs) : (content? closing cs).isSome := by
  induction cs with
  | nil => exact ending?_isSome (by simpa using h)
  | cons c cs ih =>
    rw [content?, Option.isSome_or, Option.isSome_map]
    rcases List.infix_cons_iff.mp h with hp | hi
    · simp [ending?_isSome hp]
    · simp [ih hi]

lemma ending?_of_content?_nil {b : Body} (h : content? closing cs = some b)
    (hb : b.content = []) : (ending? closing cs).isSome := by
  cases cs with
  | nil => rw [content?] at h; simp [h]
  | cons c cs =>
    rw [content?, Option.or_eq_some_iff] at h
    rcases h with h | ⟨-, h⟩
    · simp [h]
    · obtain ⟨b', -, rfl⟩ := Option.map_eq_some_iff.mp h
      simp at hb

lemma content?_eq_some {b : Body} (h : content? closing cs = some b) :
    b.lead = [] ∧ cs = b.content ++ b.trail ++ closing ++ b.rest ∧
      (∀ c ∈ b.trail, Text.isBlank c = true) ∧
      ∀ c ∈ b.content.getLast?, Text.isBlank c = false := by
  induction cs generalizing b with
  | nil =>
    obtain ⟨hl, hm, hs, ht⟩ := ending?_eq_some (by simpa only [content?] using h)
    exact ⟨hl, by simpa [hm] using hs, ht, by simp [hm]⟩
  | cons c cs ih =>
    rw [content?, Option.or_eq_some_iff] at h
    rcases h with h | ⟨hnone, h⟩
    · obtain ⟨hl, hm, hs, ht⟩ := ending?_eq_some h
      exact ⟨hl, by simpa [hm] using hs, ht, by simp [hm]⟩
    · obtain ⟨b', hb', rfl⟩ := Option.map_eq_some_iff.mp h
      obtain ⟨hl, hs, ht, hlast⟩ := ih hb'
      refine ⟨hl, by simp [hs], ht, ?_⟩
      cases hm : b'.content with
      | nil =>
        -- an ending right after a blank would have taken the blank in
        have hend := ending?_of_content?_nil hb' hm
        have hc : Text.isBlank c ≠ true := fun hc => by
          simpa [hnone] using ending?_isSome_cons hc hend
        simpa using hc
      | cons d ds => simpa [hm, List.getLast?_cons_cons] using hlast

/-! ### Blanks and symbols before the content -/

lemma body?_isSome_of_content? (h : (content? closing cs).isSome) :
    (body? closing cs).isSome := by
  cases cs with
  | nil => simpa only [body?] using h
  | cons c cs => simp [body?, h]

/-- A blank is given back only to a content that is empty. -/
lemma head?_content {c : Char} {b : Body} (hb : content? closing (c :: cs) = some b)
    (hnone : (if Text.isBlank c then body? closing cs else none) = none) :
    ∀ d ∈ b.content.head?, Text.isBlank d = false := by
  rw [content?, Option.or_eq_some_iff] at hb
  rcases hb with hb | ⟨-, hb⟩
  · simp [(ending?_eq_some hb).2.1]
  · obtain ⟨b', hb', rfl⟩ := Option.map_eq_some_iff.mp hb
    have hc : Text.isBlank c ≠ true := fun hc => by
      rw [if_pos hc] at hnone
      simpa [hnone] using body?_isSome_of_content? (by simp [hb'] : (content? closing cs).isSome)
    simpa using hc

lemma body?_eq_some {b : Body} (h : body? closing cs = some b) :
    cs = b.lead ++ b.content ++ b.trail ++ closing ++ b.rest ∧
      (∀ c ∈ b.lead, Text.isBlank c = true) ∧ (∀ c ∈ b.trail, Text.isBlank c = true) ∧
      Trimmed b.content := by
  induction cs generalizing b with
  | nil =>
    rw [body?] at h
    obtain ⟨hl, hs, ht, hlast⟩ := content?_eq_some h
    have hm : b.content = [] := by simp_all
    exact ⟨by simpa [hl] using hs, by simp [hl], ht, ⟨by simp [hm], hlast⟩⟩
  | cons c cs ih =>
    rw [body?, Option.or_eq_some_iff] at h
    rcases h with h | ⟨hnone, h⟩
    · simp only [Option.map_eq_some_iff, Option.ite_none_right_eq_some] at h
      obtain ⟨b', ⟨hc, hb'⟩, rfl⟩ := h
      obtain ⟨hs, hlead, ht, htrim⟩ := ih hb'
      exact ⟨by simp [hs], by simpa [hc] using hlead, ht, htrim⟩
    · obtain ⟨hl, hs, ht, hlast⟩ := content?_eq_some h
      have hhead := head?_content h (by simpa using hnone)
      exact ⟨by simpa [hl] using hs, by simp [hl], ht, ⟨hhead, hlast⟩⟩

lemma marked?_isSome (h : closing <:+: cs) : (marked? closing cs).isSome := by
  have hb := body?_isSome_of_content? (content?_isSome h)
  cases cs with
  | nil => simpa [marked?] using hb
  | cons c cs => simp [marked?, hb]

/-- The characters of a type marker. -/
def Symbol (c : Char) : Prop :=
  Text.isBlank c = false ∧ Text.isWord c = false ∧ c ≠ '}'

lemma isSymbol_iff {c : Char} : isSymbol c = true ↔ Symbol c := by
  simp [isSymbol, Symbol, and_assoc]

/-- The text of a tag after its opening marker, from the type marker to the closing one. -/
def Found.inside (closing : List Char) (f : Found) : List Char :=
  f.marker ++ f.body.lead ++ f.body.content ++ f.body.trail ++ closing

/-- What makes a tag well cut: its parts hold the characters they are meant to hold. -/
structure Found.Clean (f : Found) : Prop where
  marker : ∀ c ∈ f.marker, Symbol c
  lead : ∀ c ∈ f.body.lead, Text.isBlank c = true
  trail : ∀ c ∈ f.body.trail, Text.isBlank c = true
  content : Trimmed f.body.content

lemma marked?_eq_some {f : Found} (h : marked? closing cs = some f) :
    f.before = [] ∧ cs = f.inside closing ++ f.body.rest ∧ f.Clean := by
  induction cs generalizing f with
  | nil =>
    obtain ⟨b, hb, rfl⟩ := Option.map_eq_some_iff.mp (by simpa only [marked?] using h)
    obtain ⟨hs, hlead, ht, htrim⟩ := body?_eq_some hb
    exact ⟨rfl, by simpa [Found.inside] using hs, ⟨by simp, hlead, ht, htrim⟩⟩
  | cons c cs ih =>
    rw [marked?, Option.or_eq_some_iff] at h
    rcases h with h | ⟨-, h⟩
    · simp only [Option.map_eq_some_iff, Option.ite_none_right_eq_some] at h
      obtain ⟨f', ⟨hc, hf'⟩, rfl⟩ := h
      obtain ⟨hbefore, hs, hclean⟩ := ih hf'
      refine ⟨hbefore, by simp [hs, Found.inside], ⟨?_, hclean.lead, hclean.trail, hclean.content⟩⟩
      simpa [isSymbol_iff.mp hc] using hclean.marker
    · obtain ⟨b, hb, rfl⟩ := Option.map_eq_some_iff.mp h
      obtain ⟨hs, hlead, ht, htrim⟩ := body?_eq_some hb
      exact ⟨rfl, by simpa [Found.inside] using hs, ⟨by simp, hlead, ht, htrim⟩⟩

/-! ### The first tag -/

lemma at?_eq_some {f : Found} (h : at? opening closing cs = some f) :
    f.before = [] ∧ cs = opening ++ f.inside closing ++ f.body.rest ∧ f.Clean := by
  rw [at?] at h
  split at h
  · rename_i rest hrest
    rw [isPrefixOf?_eq_some] at hrest
    obtain ⟨hbefore, hs, hclean⟩ := marked?_eq_some (Option.ite_none_right_eq_some.mp h).2
    exact ⟨hbefore, by rw [hrest, hs, List.append_assoc], hclean⟩
  · simp at h

/-- There is no tag only where no closing marker follows the opening one. -/
lemma at?_eq_none (h : at? opening closing cs = none) {rest : List Char}
    (hcs : cs = opening ++ rest) : ¬ closing <:+: rest := by
  intro hin
  rw [at?, isPrefixOf?_eq_some.mpr hcs] at h
  have hsome := marked?_isSome hin
  simp [occurs_iff.mpr hin] at h
  simp [h] at hsome

lemma find?_eq_some {f : Found} (h : find? opening closing cs = some f) :
    cs = f.before ++ opening ++ f.inside closing ++ f.body.rest ∧ f.Clean ∧
      ∀ i < f.before.length, at? opening closing (cs.drop i) = none := by
  induction cs generalizing f with
  | nil =>
    obtain ⟨hbefore, hs, hclean⟩ := at?_eq_some (by simpa only [find?] using h)
    exact ⟨by simpa [hbefore] using hs, hclean, by simp [hbefore]⟩
  | cons c cs ih =>
    rw [find?, Option.or_eq_some_iff] at h
    rcases h with h | ⟨hnone, h⟩
    · obtain ⟨hbefore, hs, hclean⟩ := at?_eq_some h
      exact ⟨by simpa [hbefore] using hs, hclean, by simp [hbefore]⟩
    · obtain ⟨f', hf', rfl⟩ := Option.map_eq_some_iff.mp h
      obtain ⟨hs, hclean, hnot⟩ := ih hf'
      refine ⟨by simpa [Found.inside] using hs, ⟨hclean.1, hclean.2, hclean.3, hclean.4⟩, ?_⟩
      intro i hi
      cases i with
      | zero => exact hnone
      | succ i => exact hnot i (by simpa using hi)

lemma find?_eq_none (h : find? opening closing cs = none) (i : ℕ) :
    at? opening closing (cs.drop i) = none := by
  induction cs generalizing i with
  | nil => simpa [find?] using h
  | cons c cs ih =>
    rw [find?, Option.or_eq_none_iff, Option.map_eq_none_iff] at h
    cases i with
    | zero => exact h.1
    | succ i => exact ih h.2 i

/-- An opening marker before the first tag would have begun a tag itself, since the closing
marker of that tag comes after it as well. -/
lemma find?_first {f : Found} (h : find? opening closing cs = some f) {u v : List Char}
    (hcs : cs = u ++ opening ++ v) : f.before.length ≤ u.length := by
  by_contra hlt
  obtain ⟨hs, -, hnot⟩ := find?_eq_some h
  have hdrop : cs.drop u.length = opening ++ v := by simp [hcs]
  have hout : ¬ closing <:+: v := at?_eq_none (hnot u.length (by omega)) hdrop
  have hv : v = cs.drop (u.length + opening.length) := by simp [hcs]
  have hrest : f.inside closing ++ f.body.rest =
      cs.drop (f.before.length + opening.length) := by simp [hs]
  have hin : closing <:+: f.inside closing ++ f.body.rest :=
    ⟨f.marker ++ f.body.lead ++ f.body.content ++ f.body.trail, f.body.rest, rfl⟩
  apply hout
  rw [hv]
  rw [hrest] at hin
  exact hin.trans (List.drop_suffix_drop_left cs (by omega)).isInfix

lemma find?_none_barren (h : find? opening closing cs = none) {u v w : List Char} :
    cs ≠ u ++ opening ++ v ++ closing ++ w := by
  intro hcs
  have hdrop : cs.drop u.length = opening ++ (v ++ closing ++ w) := by simp [hcs]
  exact at?_eq_none (find?_eq_none h u.length) hdrop (by simp)

/-! ### Putting a template together -/

/-- Literal text and the tag after it, with the blanks around the content of the tag. -/
structure Cut where
  before : String
  tag : Tag
  lead : String
  trail : String

/-- A cut as it is written. -/
def Cut.text (m : Markers) (c : Cut) : String :=
  c.before ++ m.opening ++ c.tag.marker ++ c.lead ++ c.tag.content ++ c.trail ++ m.closing

/-- The text that consists of cuts and the literal text after the last of them. -/
def assemble (m : Markers) : List Cut → String → String
  | [], last => last
  | c :: cuts, last => c.text m ++ assemble m cuts last

/-- Literal text and tags in turn, with literal text at both ends. -/
def segments : List Cut → String → List Segment
  | [], last => [.literal last]
  | c :: cuts, last => .literal c.before :: .tag c.tag :: segments cuts last

/-- The parts of a cut hold the characters they are meant to hold. -/
structure Cut.Clean (c : Cut) : Prop where
  marker : ∀ ch ∈ c.tag.marker.toList, Symbol ch
  lead : ∀ ch ∈ c.lead.toList, Text.isBlank ch = true
  trail : ∀ ch ∈ c.trail.toList, Text.isBlank ch = true
  content : Trimmed c.tag.content.toList

/-- The cuts make up the source, and none of them could have begun earlier. -/
structure Decomposition (m : Markers) (source : String) (cuts : List Cut) (last : String) :
    Prop where
  assembled : source = assemble m cuts last
  clean : ∀ c ∈ cuts, c.Clean
  /-- No opening marker begins inside literal text that a tag follows. -/
  first : ∀ earlier c later, cuts = earlier ++ c :: later →
    ∀ u v, assemble m (c :: later) last = u ++ m.opening ++ v → c.before.length ≤ u.length
  /-- No opening marker of the last literal text has a closing one after it. -/
  barren : ∀ u v w, last ≠ u ++ m.opening ++ v ++ m.closing ++ w

def Cut.ofFound (f : Found) (line : ℕ) : Cut :=
  ⟨.ofList f.before, ⟨.ofList f.marker, .ofList f.body.content, line⟩, .ofList f.body.lead,
    .ofList f.body.trail⟩

variable {m : Markers}

lemma toList_text_ofFound (f : Found) (line : ℕ) :
    ((Cut.ofFound f line).text m).toList =
      f.before ++ m.opening.toList ++ f.inside m.closing.toList := by
  simp [Cut.text, Cut.ofFound, Found.inside]

lemma Decomposition.nil
    (h : find? m.opening.toList m.closing.toList cs = none) :
    Decomposition m (.ofList cs) [] (.ofList cs) where
  assembled := rfl
  clean := by simp
  first := by simp
  barren u v w heq := by
    apply find?_none_barren h
    simpa using congrArg String.toList heq

lemma Decomposition.cons {f : Found} (line : ℕ) {cuts : List Cut} {last : String}
    (hf : find? m.opening.toList m.closing.toList cs = some f)
    (h : Decomposition m (.ofList f.body.rest) cuts last) :
    Decomposition m (.ofList cs) (Cut.ofFound f line :: cuts) last := by
  obtain ⟨hs, hclean, -⟩ := find?_eq_some hf
  have hcs : String.ofList cs = assemble m (Cut.ofFound f line :: cuts) last := by
    apply String.toList_inj.mp
    rw [assemble, ← h.assembled, String.toList_append, toList_text_ofFound]
    simp [hs]
  refine ⟨hcs, ?_, ?_, h.barren⟩
  · rw [List.forall_mem_cons]
    refine ⟨?_, h.clean⟩
    exact ⟨by simpa [Cut.ofFound] using hclean.marker, by simpa [Cut.ofFound] using hclean.lead,
      by simpa [Cut.ofFound] using hclean.trail, by simpa [Cut.ofFound] using hclean.content⟩
  · intro earlier c later heq u v huv
    rcases earlier with _ | ⟨c', earlier⟩
    · obtain ⟨rfl, rfl⟩ := List.cons.inj heq
      rw [← hcs] at huv
      have := find?_first hf (u := u.toList) (v := v.toList)
        (by simpa using congrArg String.toList huv)
      simpa [Cut.ofFound, String.length_toList] using this
    · obtain ⟨-, rfl⟩ := List.cons.inj heq
      exact h.first earlier c later rfl u v huv

lemma length_rest_lt {f : Found} (hf : find? m.opening.toList m.closing.toList cs = some f) :
    f.body.rest.length < cs.length := by
  have hne : 0 < m.opening.toList.length := by
    have := m.opening_ne
    simpa [Nat.pos_iff_ne_zero] using this
  rw [(find?_eq_some hf).1]
  simp only [List.length_append]
  omega

lemma find?_nil (m : Markers) : find? m.opening.toList m.closing.toList [] = none := by
  rcases hf : find? m.opening.toList m.closing.toList [] with _ | f
  · rfl
  · exact absurd (length_rest_lt hf) (Nat.not_lt_zero _)

/-- Where there is no tag, the text is literal. -/
lemma segmentsWithin_none (n line : ℕ)
    (h : find? m.opening.toList m.closing.toList cs = none) :
    segmentsWithin m.opening.toList m.closing.toList n line cs = [.literal (.ofList cs)] := by
  cases n with
  | zero => rfl
  | succ n => rw [segmentsWithin, h]

lemma segmentsWithin_decomposition (n line : ℕ) (hn : cs.length ≤ n) :
    ∃ cuts last, segmentsWithin m.opening.toList m.closing.toList n line cs =
      segments cuts last ∧ Decomposition m (.ofList cs) cuts last := by
  induction n generalizing line cs with
  | zero =>
    obtain rfl := List.eq_nil_of_length_eq_zero (Nat.le_zero.mp hn)
    exact ⟨[], .ofList [], segmentsWithin_none 0 line (find?_nil m), .nil (find?_nil m)⟩
  | succ n ih =>
    rcases hf : find? m.opening.toList m.closing.toList cs with _ | f
    · exact ⟨[], .ofList cs, segmentsWithin_none _ line hf, .nil hf⟩
    · have hlt := length_rest_lt hf
      obtain ⟨cuts, last, hseg, hdec⟩ := ih
        (line + Text.breaks f.before + f.breaks m.opening.toList m.closing.toList)
        (show f.body.rest.length ≤ n by omega)
      refine ⟨Cut.ofFound f (line + Text.breaks f.before) :: cuts, last, ?_, hdec.cons _ hf⟩
      rw [segmentsWithin, hf, segments, ← hseg]
      rfl

/-- **Nothing is lost by a scan, and no tag is missed.** The source is its literal texts and
tags in turn, with blanks only left out around the contents of tags. -/
theorem scan_decomposition (m : Markers) (source : String) :
    ∃ cuts last, m.scan source = segments cuts last ∧ Decomposition m source cuts last := by
  obtain ⟨cuts, last, hseg, hdec⟩ :=
    segmentsWithin_decomposition (m := m) source.toList.length 1 (le_refl source.toList.length)
  rw [String.ofList_toList] at hdec
  exact ⟨cuts, last, hseg, hdec⟩

end Stencil.Tag
