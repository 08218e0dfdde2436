import Mathlib.Data.List.Basic
import Mathlib.Tactic.Common
import Stencil.Helper.Standard

/-!
Text with question marks in it, and the values that are filled in for them.

The marks cut a text into pieces. The last marks stand for values, as many as there are values,
and any marks before them stay.
-/

namespace Stencil.Helper

/-! ### Marks and what stands for them -/

/-- The text is cut by its marks into a first piece and one more piece behind each mark. -/
structure Marked (template : String) (first : String) (others : List String) : Prop where
  text : template = first ++ String.join (others.map ("?" ++ ·))
  unmarked : ∀ p ∈ first :: others, '?' ∉ p.toList

/-- What stands for each of the marks: the mark itself while there are more marks left than values,
and then the texts of the values. -/
def fillings (marks : ℕ) (values : List Value) : List String :=
  List.replicate (marks - values.length) "?" ++ (values.take marks).map Value.toText

/-- No mark of the text asks for a value when none is left. -/
def Supplied : ℕ → List Char → List Value → Prop
  | _, [], _ => True
  | literal, c :: cs, values =>
    if c ≠ '?' then Supplied literal cs values
    else
      match literal, values with
      | n + 1, _ => Supplied n cs values
      | 0, _ :: vs => Supplied 0 cs vs
      | 0, [] => False

variable {template first : String} {others : List String} {literal : ℕ} {cs piece : List Char}
  {values : List Value}

lemma supplied_iff : Supplied literal cs values ↔ cs.count '?' ≤ literal + values.length := by
  induction cs generalizing literal values with
  | nil => simp [Supplied]
  | cons c cs ih =>
    by_cases hmark : c = '?'
    · rw [hmark, List.count_cons_self]
      cases literal with
      | succ n =>
        have hstep : Supplied (n + 1) ('?' :: cs) values ↔ Supplied n cs values := by
          simp [Supplied]
        rw [hstep, ih]
        omega
      | zero =>
        cases values with
        | nil => simp [Supplied]
        | cons v vs =>
          have hstep : Supplied 0 ('?' :: cs) (v :: vs) ↔ Supplied 0 cs vs := by simp [Supplied]
          rw [hstep, ih, List.length_cons]
          omega
    · have hstep : Supplied literal (c :: cs) values ↔ Supplied literal cs values := by
        simp [Supplied, hmark]
      rw [hstep, ih, List.count_cons_of_ne hmark]

/-! ### Cutting a text at its marks -/

lemma Marked.toList_eq (h : Marked template first others) :
    template.toList = first.toList ++ others.flatMap fun p => '?' :: p.toList := by
  rw [h.text]
  simp [List.flatMap_map]

lemma count_marks (h : ∀ p ∈ others, '?' ∉ p.toList) :
    (others.flatMap fun p => '?' :: p.toList).count '?' = others.length := by
  induction others with
  | nil => rfl
  | cons p others ih =>
    obtain ⟨hp, hothers⟩ := List.forall_mem_cons.mp h
    rw [List.flatMap_cons, List.count_append, List.count_cons_self,
      List.count_eq_zero_of_not_mem hp, ih hothers, List.length_cons]
    omega

/-- There are as many further pieces as marks. -/
lemma Marked.count_eq (h : Marked template first others) :
    template.toList.count '?' = others.length := by
  obtain ⟨hfirst, hothers⟩ := List.forall_mem_cons.mp h.unmarked
  rw [h.toList_eq, List.count_append, List.count_eq_zero_of_not_mem hfirst, count_marks hothers,
    Nat.zero_add]

lemma marked_empty : Marked "" "" [] := ⟨rfl, by simp⟩

/-- A mark in front of a text begins a new first piece, which is empty. -/
lemma Marked.mark (h : Marked template first others) :
    Marked ("?" ++ template) "" (first :: others) where
  text := by
    rw [h.text]
    simp [String.append_assoc]
  unmarked := List.forall_mem_cons.mpr ⟨by simp, h.unmarked⟩

/-- Any other character in front of a text belongs to the first piece. -/
lemma Marked.other {c : Char} (h : Marked template first others) (hc : c ≠ '?') :
    Marked (String.singleton c ++ template) (String.singleton c ++ first) others where
  text := by rw [h.text, String.append_assoc]
  unmarked := by
    obtain ⟨hfirst, hothers⟩ := List.forall_mem_cons.mp h.unmarked
    refine List.forall_mem_cons.mpr ⟨?_, hothers⟩
    simp [hfirst, Ne.symm hc]

/-- Every text is cut by its marks. -/
lemma exists_marked (template : String) : ∃ first others, Marked template first others := by
  have hpieces : ∀ cs : List Char, ∃ first others, Marked (.ofList cs) first others := by
    intro cs
    induction cs with
    | nil => exact ⟨"", [], marked_empty⟩
    | cons c cs ih =>
      obtain ⟨first, others, hcut⟩ := ih
      have hcons : String.ofList (c :: cs) = String.singleton c ++ .ofList cs := by
        rw [← String.toList_inj]
        simp
      rw [hcons]
      by_cases hmark : c = '?'
      · subst hmark
        exact ⟨_, _, hcut.mark⟩
      · exact ⟨_, _, hcut.other hmark⟩
  simpa using hpieces template.toList

/-! ### Filling in -/

lemma fill_other {c : Char} (h : c ≠ '?') :
    fill literal (c :: cs) values = String.singleton c :: fill literal cs values := by
  simp [fill, h]

lemma fill_literal : fill (literal + 1) ('?' :: cs) values = "?" :: fill literal cs values := by
  simp [fill]

lemma fill_value {v : Value} : fill 0 ('?' :: cs) (v :: values) = v.toText :: fill 0 cs values := by
  simp [fill]

lemma fill_unmarked (h : '?' ∉ piece) (literal : ℕ) (cs : List Char) (values : List Value) :
    fill literal (piece ++ cs) values = piece.map String.singleton ++ fill literal cs values := by
  induction piece with
  | nil => rfl
  | cons c piece ih =>
    obtain ⟨hc, hpiece⟩ := not_or.mp (mt List.mem_cons.mpr h)
    rw [List.cons_append, fill_other (Ne.symm hc), ih hpiece]
    rfl

lemma join_singletons (p : String) : String.join (p.toList.map String.singleton) = p := by
  rw [← String.toList_inj]
  simp [List.flatMap_map]

/-- A piece stays as it is, and what is behind it is filled in. -/
lemma join_fill_piece {p : String} (h : '?' ∉ p.toList) (literal : ℕ) (cs : List Char)
    (values : List Value) : String.join (fill literal (p.toList ++ cs) values) =
      p ++ String.join (fill literal cs values) := by
  rw [fill_unmarked h, String.join_append, join_singletons]

/-- Marks and values run out together: the first marks stay and each further one takes the next
value. Values behind those are left alone. -/
lemma join_fill_marks {used : List Value} (h : ∀ p ∈ others, '?' ∉ p.toList)
    (hlength : others.length = literal + used.length) (unused : List Value) :
    String.join (fill literal (others.flatMap fun p => '?' :: p.toList) (used ++ unused)) =
      String.join (List.zipWith (· ++ ·)
        (List.replicate literal "?" ++ used.map Value.toText) others) := by
  induction others generalizing literal used with
  | nil => simp [fill]
  | cons p others ih =>
    obtain ⟨hp, hothers⟩ := List.forall_mem_cons.mp h
    rw [List.length_cons] at hlength
    rw [List.flatMap_cons, List.cons_append]
    cases literal with
    | succ n =>
      rw [fill_literal, String.join_cons, join_fill_piece hp, ih hothers (by omega)]
      rw [List.replicate_succ, List.cons_append, List.zipWith_cons_cons, String.join_cons,
        String.append_assoc]
    | zero =>
      cases used with
      | nil => simp at hlength
      | cons v used =>
        rw [List.length_cons] at hlength
        rw [List.cons_append, fill_value, String.join_cons, join_fill_piece hp,
          ih hothers (by omega)]
        simp [String.append_assoc]

/-- **Placeholders.** Every text is cut into pieces by its marks. When values are filled in, all the
pieces stay in their order, and in the place of each mark stands what `fillings` has for it. No mark
asks for a value when none is left. -/
theorem sprintf_fillings (template : String) (values : List Value) :
    (∃ first others, Marked template first others) ∧
      ∀ first others, Marked template first others →
        sprintf template values = first ++ String.join
          (List.zipWith (· ++ ·) (fillings others.length values) others) ∧
        (fillings others.length values).length = others.length ∧
        Supplied (template.toList.count '?' - values.length) template.toList values := by
  refine ⟨exists_marked template, fun first others h => ⟨?_, ?_, ?_⟩⟩
  · obtain ⟨hfirst, hothers⟩ := List.forall_mem_cons.mp h.unmarked
    have hlength : others.length =
        others.length - values.length + (values.take others.length).length := by
      rw [List.length_take]
      omega
    have hfill := join_fill_marks hothers hlength (values.drop others.length)
    rw [List.take_append_drop] at hfill
    rw [sprintf, h.count_eq, h.toList_eq, join_fill_piece hfirst, hfill, fillings]
  · rw [fillings, List.length_append, List.length_replicate, List.length_map, List.length_take]
    omega
  · rw [supplied_iff]
    omega

/-- A query separator stays, and so does the mark in the value that is filled in. -/
theorem sprintf_fillings_query :
    Marked "/x?id=?" "/x" ["id=", ""] ∧ fillings 2 [.str "a?b"] = ["?", "a?b"] ∧
      sprintf "/x?id=?" [.str "a?b"] = "/x?id=a?b" ∧
      Supplied ("/x?id=?".toList.count '?' - 1) "/x?id=?".toList [.str "a?b"] := by
  have hmarked : Marked "/x?id=?" "/x" ["id=", ""] := ⟨by decide, by decide⟩
  obtain ⟨hfilled, -, hsupplied⟩ := (sprintf_fillings "/x?id=?" [.str "a?b"]).2 _ _ hmarked
  exact ⟨hmarked, by decide +kernel, hfilled.trans (by decide +kernel), hsupplied⟩

end Stencil.Helper
