import Mathlib.Data.List.Basic
import Mathlib.Tactic.Common
import Stencil.Helper.Standard

/-!
Attributes, and why nothing that is shown in one ends it.

The text of an attribute is escaped as a whole, after its placeholders are filled in. So it does not
matter where a double quote in it comes from.
-/

namespace Stencil

namespace Text

/-! ### Double quotes escaped -/

/-- The text with another one in the place of each of its double quotes. -/
def requote (quote cs : List Char) : List Char := quote.intercalate (cs.splitOn '"')

variable {quote cs : List Char}

lemma requote_nil : requote quote [] = [] := by
  rw [requote, List.splitOn_nil, List.intercalate_singleton]

lemma requote_quote : requote quote ('"' :: cs) = quote ++ requote quote cs := by
  have hne : cs.splitOn '"' ≠ [] := List.splitOn_ne_nil '"' cs
  simp [requote, List.splitOn_cons_eq_if_modifyHead, List.intercalate_cons_of_ne_nil hne]

lemma requote_other {c : Char} (h : c ≠ '"') : requote quote (c :: cs) = c :: requote quote cs := by
  obtain ⟨piece, pieces, hsplit⟩ := List.exists_cons_of_ne_nil (List.splitOn_ne_nil '"' cs)
  simp [requote, List.splitOn_cons_eq_if_modifyHead, h, hsplit, List.intercalate_cons_cons_left]

/-- Escaping puts the reference in the place of each double quote and changes nothing else. -/
lemma toList_escapeAttribute (s : String) :
    (escapeAttribute s).toList = requote "&quot;".toList s.toList := by
  have hchars : ∀ cs : List Char, (cs.flatMap fun c =>
      (if c = '"' then "&quot;" else String.singleton c).toList) = requote "&quot;".toList cs := by
    intro cs
    induction cs with
    | nil => exact requote_nil.symm
    | cons c cs ih =>
      rw [List.flatMap_cons, ih]
      by_cases hc : c = '"'
      · rw [if_pos hc, hc, requote_quote]
      · rw [if_neg hc, requote_other hc, String.toList_singleton, List.singleton_append]
  rw [escapeAttribute, ← hchars]
  simp [List.flatMap_map]

lemma not_mem_requote (h : '"' ∉ quote) : '"' ∉ requote quote cs := by
  induction cs with
  | nil => simp [requote_nil]
  | cons c cs ih =>
    by_cases hc : c = '"'
    · rw [hc, requote_quote, List.mem_append, not_or]
      exact ⟨h, ih⟩
    · rw [requote_other hc, List.mem_cons, not_or]
      exact ⟨Ne.symm hc, ih⟩

/-- No double quote is left. -/
lemma quote_not_mem_escapeAttribute (s : String) : '"' ∉ (escapeAttribute s).toList := by
  rw [toList_escapeAttribute]
  exact not_mem_requote (by decide)

lemma requote_eq_nil_iff (h : quote ≠ []) : requote quote cs = [] ↔ cs = [] := by
  cases cs with
  | nil => simp [requote_nil]
  | cons c cs =>
    by_cases hc : c = '"'
    · simp [hc, requote_quote, h]
    · simp [requote_other hc]

/-- Only the empty text is escaped to nothing. -/
lemma escapeAttribute_eq_empty_iff (s : String) : escapeAttribute s = "" ↔ s = "" := by
  rw [← String.toList_inj, toList_escapeAttribute, String.toList_empty,
    requote_eq_nil_iff (by decide), String.toList_eq_nil_iff]

end Text

namespace Helper

/-! ### What an attribute shows -/

/-- The text chosen for a value: that of the default for null and for the empty string, as it is
and empty if there is none, and that of any other value with its placeholders filled in. -/
inductive Chosen (args : List Value) : Value → Option Value → String → Prop
  | default {value : Value} (d : Value) :
      value = .null ∨ value = .str "" → Chosen args value (some d) d.toText
  | nothing {value : Value} : value = .null ∨ value = .str "" → Chosen args value none ""
  | formatted {value : Value} (default? : Option Value) :
      value ≠ .null → value ≠ .str "" →
      Chosen args value default? (sprintf value.toText args)

/-- The values for the placeholders that are meant by one argument. -/
inductive Filling : Value → List Value → Prop
  | none : Filling .null []
  | all (items : List Value) : Filling (.arr items) items
  | single {v : Value} : v ≠ .null → (∀ items, v ≠ .arr items) → Filling v [v]

/-- The default that is meant by one argument. -/
inductive Fallback : Value → Option Value → Prop
  | none : Fallback .null none
  | some {v : Value} : v ≠ .null → Fallback v (some v)

variable {name text : String} {value : Value} {args : List Value} {default? : Option Value}

lemma attributeText_eq_iff : attributeText value args default? = text ↔
    Chosen args value default? text := by
  constructor
  · rintro rfl
    unfold attributeText
    split
    · cases default? with
      | none => exact .nothing (.inl rfl)
      | some d => exact .default d (.inl rfl)
    · cases default? with
      | none => exact .nothing (.inr rfl)
      | some d => exact .default d (.inr rfl)
    · rename_i hnull hempty
      exact .formatted default? hnull hempty
  · intro h
    cases h with
    | default d hvalue => rcases hvalue with rfl | rfl <;> rfl
    | nothing hvalue => rcases hvalue with rfl | rfl <;> rfl
    | formatted _ hnull hempty =>
      unfold attributeText
      split
      · exact absurd rfl hnull
      · exact absurd rfl hempty
      · rfl

/-! ### Attributes -/

lemma attr_of_empty (h : attributeText value args default? = "") :
    attr name value args default? = "" := by
  simp [attr, h]

lemma attr_of_ne (h : attributeText value args default? ≠ "") :
    attr name value args default? =
      name ++ "=\"" ++ Text.escapeAttribute (attributeText value args default?) ++ "\"" := by
  simp [attr, h]

lemma attr_eq_empty_iff :
    attr name value args default? = "" ↔ attributeText value args default? = "" := by
  refine ⟨fun h => by_contra fun hne => ?_, attr_of_empty⟩
  rw [attr_of_ne hne] at h
  simp at h

/-- Between the two quotes of an attribute there is no other one. -/
lemma count_quotes {w : String} (hname : '"' ∉ name.toList) (hw : '"' ∉ w.toList) :
    (name ++ "=\"" ++ w ++ "\"").toList.count '"' = 2 := by
  simp [String.toList_append, List.count_append, List.count_eq_zero_of_not_mem hname,
    List.count_eq_zero_of_not_mem hw]

/-- As a helper of templates, the attribute takes its values and its default as one argument each. -/
lemma attrHelper_eq {given : List Value} (hname : argument given 0 = .str name) :
    ∃ values default?, Filling (argument given 2) values ∧ Fallback (argument given 3) default? ∧
      attrHelper given = .ok (.str (attr name (argument given 1) values default?)) := by
  unfold attrHelper
  rw [hname]
  generalize argument given 2 = second, argument given 3 = third
  refine ⟨_, _, ?_, ?_, rfl⟩
  · split
    · exact .none
    · exact .all _
    · rename_i hnull harr
      exact .single hnull harr
  · split
    · exact .none
    · rename_i hnull
      exact .some hnull

/-- **A value never leaves its attribute.** One text is chosen for a value, its values for
placeholders and its default. If that is empty, so is the attribute, and only then. Else the chosen
text stands between two double quotes, with the reference in the place of each double quote of its
own, and there are no more double quotes unless the name has some. The helper of templates makes
the same of its arguments. -/
theorem attr_contained (name : String) (value : Value) (args : List Value)
    (default? : Option Value) :
    (∃! text, Chosen args value default? text) ∧
      (∀ text, Chosen args value default? text →
        (attr name value args default? = "" ↔ text = "") ∧
        (text ≠ "" → ∃ w : String, attr name value args default? = name ++ "=\"" ++ w ++ "\"" ∧
          w ≠ "" ∧ '"' ∉ w.toList ∧ w.toList = Text.requote "&quot;".toList text.toList ∧
          ('"' ∉ name.toList → (attr name value args default?).toList.count '"' = 2))) ∧
      ∃ helper, Entries.find? standard "attr" = some helper ∧
        ∀ given, argument given 0 = .str name → argument given 1 = value →
          ∃ values offered, Filling (argument given 2) values ∧
            Fallback (argument given 3) offered ∧
            helper given = .ok (.str (attr name value values offered)) := by
  refine ⟨⟨_, attributeText_eq_iff.mp rfl, fun text h => (attributeText_eq_iff.mpr h).symm⟩,
    fun text h => ?_, attrHelper, rfl, fun given hname hvalue => ?_⟩
  · obtain rfl := attributeText_eq_iff.mpr h
    refine ⟨attr_eq_empty_iff, fun hne => ?_⟩
    have hattr : attr name value args default? = _ := attr_of_ne hne
    have hquote := Text.quote_not_mem_escapeAttribute (attributeText value args default?)
    refine ⟨_, hattr, (Text.escapeAttribute_eq_empty_iff _).not.mpr hne, hquote,
      Text.toList_escapeAttribute _, fun hname => ?_⟩
    rw [hattr]
    exact count_quotes hname hquote
  · obtain ⟨values, offered, hvalues, hoffered, hgiven⟩ := attrHelper_eq hname
    rw [hvalue] at hgiven
    exact ⟨values, offered, hvalues, hoffered, hgiven⟩

/-- Quotes in a value and in what is filled into it. -/
theorem attr_contained_quotes :
    ∃ w : String, attr "title" (.str "say \"?\"") [.str "\" onclick=\"f()"] none =
        "title" ++ "=\"" ++ w ++ "\"" ∧ '"' ∉ w.toList ∧
      w.toList = "say &quot;&quot; onclick=&quot;f()&quot;".toList ∧
      attr "title" (.str "") [.str "\""] none = "" := by
  have hfilled : Chosen [.str "\" onclick=\"f()"] (.str "say \"?\"") none
      (sprintf "say \"?\"" [.str "\" onclick=\"f()"]) := .formatted none nofun (by simp)
  obtain ⟨-, hshown, -⟩ := attr_contained "title" (.str "say \"?\"") [.str "\" onclick=\"f()"] none
  obtain ⟨-, hne⟩ := hshown _ hfilled
  obtain ⟨w, hattr, -, hquote, hw, -⟩ := hne (by decide +kernel)
  obtain ⟨-, hempty, -⟩ := attr_contained "title" (.str "") [.str "\""] none
  refine ⟨w, hattr, hquote, hw.trans (by decide +kernel), ?_⟩
  exact (hempty _ (.nothing (.inr rfl))).1.mpr rfl

end Helper

end Stencil
