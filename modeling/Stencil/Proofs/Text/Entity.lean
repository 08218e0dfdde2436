import Mathlib.Data.List.Infix
import Mathlib.Data.List.Nodup
import Mathlib.Tactic.Common
import Stencil.Text.Entity

/-!
Escaped text has no meaning as markup, and the text that was escaped can be read back from it.
-/

namespace Stencil.Text

/-- The references that stand for characters of markup. -/
def entities : List String := ["&amp;", "&lt;", "&gt;", "&quot;", "&#39;", "&#x2F;"]

/-- Text without characters of markup, in which every ampersand begins a reference. -/
structure Inert (s : String) : Prop where
  unmarked : ∀ c ∈ s.toList, c ∉ ['<', '>', '"', '\'', '/']
  reference : ∀ before after, s.toList = before ++ '&' :: after →
    ∃ e ∈ entities, e.toList <+: '&' :: after

lemma inert_empty : Inert "" := by
  refine ⟨by simp, fun before after h => ?_⟩
  simp at h

lemma Inert.append {s t : String} (hs : Inert s) (ht : Inert t) : Inert (s ++ t) := by
  constructor
  · intro c hc
    rw [String.toList_append, List.mem_append] at hc
    exact hc.elim (hs.unmarked c) (ht.unmarked c)
  · intro before after h
    rw [String.toList_append] at h
    rcases List.append_eq_append_iff.mp h with ⟨mid, rfl, hafter⟩ | ⟨mid, hbefore, hafter⟩
    · exact ht.reference mid after hafter
    -- the ampersand is in the first text unless that ends right before it
    cases mid with
    | nil => exact ht.reference [] after hafter.symm
    | cons c mid =>
      obtain ⟨rfl, rfl⟩ := List.cons.inj hafter
      obtain ⟨e, he, hprefix⟩ := hs.reference before mid hbefore
      exact ⟨e, he, hprefix.trans (List.prefix_append ('&' :: mid) t.toList)⟩

lemma inert_join {pieces : List String} (h : ∀ piece ∈ pieces, Inert piece) :
    Inert (String.join pieces) := by
  induction pieces with
  | nil => exact inert_empty
  | cons piece pieces ih =>
    obtain ⟨hpiece, hpieces⟩ := List.forall_mem_cons.mp h
    rw [String.join_cons]
    exact hpiece.append (ih hpieces)

lemma entities_shape {e : String} (he : e ∈ entities) :
    ∃ cs, e.toList = '&' :: cs ∧ ∀ c ∈ cs, c ∉ ['&', '<', '>', '"', '\'', '/'] := by
  simp only [entities, List.mem_cons, List.not_mem_nil, or_false] at he
  rcases he with rfl | rfl | rfl | rfl | rfl | rfl
  · exact ⟨['a', 'm', 'p', ';'], rfl, by simp⟩
  · exact ⟨['l', 't', ';'], rfl, by simp⟩
  · exact ⟨['g', 't', ';'], rfl, by simp⟩
  · exact ⟨['q', 'u', 'o', 't', ';'], rfl, by simp⟩
  · exact ⟨['#', '3', '9', ';'], rfl, by simp⟩
  · exact ⟨['#', 'x', '2', 'F', ';'], rfl, by simp⟩

lemma inert_of_mem_entities {e : String} (he : e ∈ entities) : Inert e := by
  obtain ⟨cs, heq, hcs⟩ := entities_shape he
  constructor
  · intro c hc
    rw [heq] at hc
    rcases List.mem_cons.mp hc with rfl | hc
    · decide
    · exact fun hmem => hcs c hc (List.mem_cons_of_mem _ hmem)
  · intro before after h
    rw [heq] at h
    cases before with
    | nil => exact ⟨e, he, by rw [heq, h]; exact List.prefix_rfl⟩
    | cons b before =>
      obtain ⟨-, rfl⟩ := List.cons.inj h
      exact (hcs '&' (by simp) (by simp)).elim

lemma inert_entity (c : Char) : Inert (entity c) := by
  unfold entity
  split
  case h_7 hamp hlt hgt hquot hapos hslash =>
    refine ⟨by simp_all, fun before after h => ?_⟩
    have hmem : '&' ∈ (String.singleton c).toList := by simp [h]
    rw [String.toList_singleton, List.mem_singleton] at hmem
    exact (hamp hmem.symm).elim
  all_goals exact inert_of_mem_entities (by simp [entities])

/-- **Escaping leaves no markup.** -/
theorem escapeText_inert (s : String) : Inert (escapeText s) := by
  refine inert_join fun piece hpiece => ?_
  obtain ⟨c, -, rfl⟩ := List.mem_map.mp hpiece
  exact inert_entity c

/-! ### Reading references back -/

/-- The characters that are written as references. -/
def markup : List Char := ['&', '<', '>', '"', '\'', '/']

/-- The references, each with the character it stands for. -/
def references : List (String × Char) :=
  [("&amp;", '&'), ("&lt;", '<'), ("&gt;", '>'), ("&quot;", '"'), ("&#39;", '\''), ("&#x2F;", '/')]

/-- Whether the text begins with the reference. -/
def beginsWith (cs : List Char) (r : String × Char) : Bool := r.1.toList.isPrefixOf cs

/-- Text with every reference replaced by the character it stands for, from the left. -/
def decode : List Char → List Char
  | [] => []
  | c :: cs =>
    match references.find? (beginsWith (c :: cs)) with
    | some (e, m) => m :: decode (cs.drop (e.length - 1))
    | none => c :: decode cs
termination_by cs => cs.length
decreasing_by
  · rw [List.length_drop, List.length_cons]
    omega
  · rw [List.length_cons]
    omega

def decodeText (s : String) : String := .ofList (decode s.toList)

variable {c : Char} {cs rest : List Char} {e e' : String} {r r' : String × Char}

lemma entity_of_not_mem (h : c ∉ markup) : entity c = String.singleton c := by
  unfold entity
  split
  case h_7 => rfl
  all_goals exact (h (by decide)).elim

lemma map_entity_markup : markup.map (fun c => (entity c, c)) = references := rfl

lemma entity_mem_references (h : c ∈ markup) : (entity c, c) ∈ references := by
  rw [← map_entity_markup]
  exact List.mem_map_of_mem h

lemma map_references : references.map Prod.fst = entities := rfl

lemma fst_mem_entities (hr : r ∈ references) : r.1 ∈ entities := by
  rw [← map_references]
  exact List.mem_map_of_mem hr

lemma entity_mem (h : c ∈ markup) : entity c ∈ entities :=
  fst_mem_entities (entity_mem_references h)

/-- No reference begins another one. -/
lemma entities_apart (he : e ∈ entities) (he' : e' ∈ entities) (h : e.toList <+: e'.toList) :
    e = e' := by
  have hall : ∀ e ∈ entities, ∀ e' ∈ entities, e.toList <+: e'.toList → e = e' := by decide
  exact hall e he e' he' h

/-- A text begins with one reference at most. -/
lemma entity_unique (he : e ∈ entities) (he' : e' ∈ entities) (h : e.toList <+: cs)
    (h' : e'.toList <+: cs) : e = e' := by
  rcases List.prefix_or_prefix_of_prefix h h' with hle | hle
  · exact entities_apart he he' hle
  · exact (entities_apart he' he hle).symm

lemma reference_unique (hr : r ∈ references) (hr' : r' ∈ references)
    (h : beginsWith cs r = true) (h' : beginsWith cs r' = true) : r = r' := by
  have hsame : r.1 = r'.1 := entity_unique (fst_mem_entities hr) (fst_mem_entities hr')
    (List.isPrefixOf_iff_prefix.mp h) (List.isPrefixOf_iff_prefix.mp h')
  have hnodup : (references.map Prod.fst).Nodup := by
    rw [map_references]
    decide
  exact List.inj_on_of_nodup_map hnodup hr hr' hsame

/-- The reference that a text begins with is found, whatever comes after it. -/
lemma find?_reference (hc : c ∈ markup) (rest : List Char) :
    references.find? (beginsWith ((entity c).toList ++ rest)) = some (entity c, c) := by
  have hmem := entity_mem_references hc
  have hself : beginsWith ((entity c).toList ++ rest) (entity c, c) = true :=
    List.isPrefixOf_iff_prefix.mpr (List.prefix_append _ _)
  obtain ⟨r, hr⟩ := Option.isSome_iff_exists.mp (List.find?_isSome.mpr ⟨_, hmem, hself⟩)
  have hbegins : beginsWith ((entity c).toList ++ rest) r = true := List.find?_some hr
  rw [hr, reference_unique (List.mem_of_find?_eq_some hr) hmem hbegins hself]

/-- Every reference begins with an ampersand, so no other character begins one. -/
lemma find?_other (hc : c ∉ markup) (rest : List Char) :
    references.find? (beginsWith (c :: rest)) = none := by
  rw [List.find?_eq_none]
  intro r hr hbegins
  obtain ⟨ds, hds, -⟩ := entities_shape (fst_mem_entities hr)
  rw [beginsWith, List.isPrefixOf_iff_prefix, hds, List.cons_prefix_cons] at hbegins
  obtain ⟨rfl, -⟩ := hbegins
  exact hc (by decide)

lemma decode_entity (c : Char) (rest : List Char) :
    decode ((entity c).toList ++ rest) = c :: decode rest := by
  by_cases hc : c ∈ markup
  · have hfind := find?_reference hc rest
    obtain ⟨ds, hds, -⟩ := entities_shape (entity_mem hc)
    have hlength : (entity c).length - 1 = ds.length := by
      rw [← String.length_toList, hds, List.length_cons, Nat.add_sub_cancel]
    rw [hds, List.cons_append] at hfind ⊢
    rw [decode, hfind]
    dsimp only
    rw [hlength, List.drop_left]
  · rw [entity_of_not_mem hc, String.toList_singleton, List.singleton_append, decode,
      find?_other hc]

lemma toList_escapeText (s : String) :
    (escapeText s).toList = s.toList.flatMap fun c => (entity c).toList := by
  simp [escapeText, List.flatMap_map]

lemma decode_flatMap_entity (cs : List Char) :
    decode (cs.flatMap fun c => (entity c).toList) = cs := by
  induction cs with
  | nil => rw [List.flatMap_nil, decode]
  | cons c cs ih => rw [List.flatMap_cons, decode_entity, ih]

lemma decodeText_escapeText (s : String) : decodeText (escapeText s) = s := by
  rw [decodeText, toList_escapeText, decode_flatMap_entity, String.ofList_toList]

lemma escapeText_injective : Function.Injective escapeText :=
  Function.LeftInverse.injective decodeText_escapeText

/-! ### What escaping changes -/

/-- Every reference brings a semicolon into the text. -/
lemma count_semicolons (cs : List Char) :
    (cs.flatMap fun c => (entity c).toList).count ';' =
      cs.countP (· ∈ markup) + cs.count ';' := by
  induction cs with
  | nil => rfl
  | cons c cs ih =>
    rw [List.flatMap_cons, List.count_append, ih]
    by_cases hc : c ∈ markup
    · have hone : ∀ e ∈ entities, e.toList.count ';' = 1 := by decide
      have hne : c ≠ ';' := ne_of_mem_of_not_mem hc (by decide)
      rw [hone _ (entity_mem hc), List.countP_cons_of_pos (by simpa using hc),
        List.count_cons_of_ne hne]
      omega
    · have hsplit : (c :: cs).count ';' = [c].count ';' + cs.count ';' := by
        rw [← List.count_append, List.singleton_append]
      rw [entity_of_not_mem hc, String.toList_singleton,
        List.countP_cons_of_neg (by simpa using hc), hsplit]
      omega

lemma escapeText_eq_self_iff (s : String) :
    escapeText s = s ↔ ∀ c ∈ s.toList, c ∉ markup := by
  rw [← String.toList_inj, toList_escapeText]
  constructor
  · intro h
    have hcount := count_semicolons s.toList
    rw [h] at hcount
    have hnone : s.toList.countP (· ∈ markup) = 0 := by omega
    simpa using List.countP_eq_zero.mp hnone
  · intro h
    have hself : ∀ c ∈ s.toList, (entity c).toList = [c] := fun c hc => by
      rw [entity_of_not_mem (h c hc), String.toList_singleton]
    rw [List.flatMap_congr hself, List.flatMap_singleton']

/-- **Escaping is exact and can be undone.** Escaped text holds no markup, and every ampersand in it
begins one reference. With the references replaced by their characters it is the text that was
escaped, so different texts are escaped differently, and escaping twice differs from escaping once
wherever there is anything to escape. Parts are escaped on their own. -/
theorem escapeText_exact (s t : String) :
    (∀ c ∈ (escapeText s).toList, c ∉ ['<', '>', '"', '\'', '/']) ∧
      (∀ before after, (escapeText s).toList = before ++ '&' :: after →
        ∃! e, e ∈ entities ∧ e.toList <+: '&' :: after) ∧
      decodeText (escapeText s) = s ∧
      (escapeText s = escapeText t → s = t) ∧
      (escapeText (escapeText s) = escapeText s ↔ ∀ c ∈ s.toList, c ∉ markup) ∧
      escapeText (s ++ t) = escapeText s ++ escapeText t := by
  have hinert := escapeText_inert s
  refine ⟨hinert.unmarked, fun before after h => ?_, decodeText_escapeText s,
    fun h => escapeText_injective h, ?_, escapeText_append s t⟩
  · obtain ⟨e, he, hprefix⟩ := hinert.reference before after h
    exact ⟨e, ⟨he, hprefix⟩, fun e' he' => entity_unique he'.1 he he'.2 hprefix⟩
  · rw [escapeText_injective.eq_iff, escapeText_eq_self_iff]

end Stencil.Text
