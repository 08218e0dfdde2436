import Stencil.Proofs.Rewrite.Header

/-!
Where the rewrite rule for loops over elements finds a header, and what the standard rules make of
code with one header or with none.

The rule finds more headers than those it reads as they are meant. The elements may begin with
blanks and have parentheses in them, because the search gives back what it took if that leads to a
match.
-/

namespace Stencil

namespace Rule

open Pattern

/-- The text is that of a header as far as the pattern can tell. -/
structure Header.Shaped (h : Header) : Prop where
  name_ne : h.name ≠ []
  name : ∀ c ∈ h.name, Text.isWord c = true
  elements_ne : h.elements ≠ []
  elements : '\n' ∉ h.elements
  beforeParen : ∀ c ∈ h.beforeParen, Text.isBlank c = true
  afterParen : ∀ c ∈ h.afterParen, Text.isBlank c = true
  beforeIn_ne : h.beforeIn ≠ []
  beforeIn : ∀ c ∈ h.beforeIn, Text.isBlank c = true
  afterIn_ne : h.afterIn ≠ []
  afterIn : ∀ c ∈ h.afterIn, Text.isBlank c = true

variable {before rest : List Char} {captures : Captures} {t : State}

/-- **The pattern leads past the headers** at a position and nowhere else. -/
theorem matches_forIn_iff : Matches forInPattern ⟨⟨before, rest⟩, captures⟩ t ↔
    ∃ h : Header, h.Shaped ∧ ∃ after, rest = h.text ++ after ∧
      t = ⟨⟨h.text.reverse ++ before, after⟩, (2, h.elements) :: (1, h.name) :: captures⟩ := by
  have hbreak {xs : List Char} : (∀ c ∈ xs, CharSet.anyButBreak.has c = true) ↔ '\n' ∉ xs := by
    simp only [CharSet.has, bne_iff_ne]
    exact ⟨fun h hc => h _ hc rfl, fun h c hc heq => h (heq ▸ hc)⟩
  rw [forInPattern_eq]
  constructor
  · rintro ⟨_, mf, _, mo, _, mr, _, mbefore, _, mopen, _, mafter, _, mname, _, mbeforeIn, _, mi, _,
      mn, _, mafterIn, _, melements, mclose⟩
    obtain ⟨_, rfl, rfl⟩ := matches_one_iff.mp mf
    obtain ⟨_, rfl, rfl⟩ := matches_one_iff.mp mo
    obtain ⟨_, rfl, rfl⟩ := matches_one_iff.mp mr
    obtain ⟨beforeParen, _, rfl, hbefore, rfl⟩ := matches_maybe_many_char_iff.mp mbefore
    obtain ⟨_, rfl, rfl⟩ := matches_one_iff.mp mopen
    obtain ⟨afterParen, _, rfl, hafter, rfl⟩ := matches_maybe_many_char_iff.mp mafter
    obtain ⟨name, _, hname_ne, rfl, hname, rfl⟩ := matches_group_many_iff.mp mname
    obtain ⟨beforeIn, _, hbeforeIn_ne, rfl, hbeforeIn, rfl⟩ := matches_many_char_iff.mp mbeforeIn
    obtain ⟨_, rfl, rfl⟩ := matches_one_iff.mp mi
    obtain ⟨_, rfl, rfl⟩ := matches_one_iff.mp mn
    obtain ⟨afterIn, _, hafterIn_ne, rfl, hafterIn, rfl⟩ := matches_many_char_iff.mp mafterIn
    obtain ⟨elements, _, helements_ne, rfl, helements, rfl⟩ := matches_group_many_iff.mp melements
    obtain ⟨after, rfl, rfl⟩ := matches_one_iff.mp mclose
    refine ⟨⟨name, elements, beforeParen, afterParen, beforeIn, afterIn⟩,
      ⟨hname_ne, hname, helements_ne, hbreak.mp helements, hbefore, hafter, hbeforeIn_ne, hbeforeIn,
        hafterIn_ne, hafterIn⟩, after, ?_, ?_⟩
    · rw [Header.text_append]
    · rw [Header.reverse_text_append]
  · rintro ⟨h, hs, after, rfl, rfl⟩
    rw [Header.text_append, Header.reverse_text_append]
    exact ⟨_, matches_one_iff.mpr ⟨_, rfl, rfl⟩, _, matches_one_iff.mpr ⟨_, rfl, rfl⟩,
      _, matches_one_iff.mpr ⟨_, rfl, rfl⟩,
      _, matches_maybe_many_char_iff.mpr ⟨_, _, rfl, hs.beforeParen, rfl⟩,
      _, matches_one_iff.mpr ⟨_, rfl, rfl⟩,
      _, matches_maybe_many_char_iff.mpr ⟨_, _, rfl, hs.afterParen, rfl⟩,
      _, matches_group_many_iff.mpr ⟨_, _, hs.name_ne, rfl, hs.name, rfl⟩,
      _, matches_many_char_iff.mpr ⟨_, _, hs.beforeIn_ne, rfl, hs.beforeIn, rfl⟩,
      _, matches_one_iff.mpr ⟨_, rfl, rfl⟩, _, matches_one_iff.mpr ⟨_, rfl, rfl⟩,
      _, matches_many_char_iff.mpr ⟨_, _, hs.afterIn_ne, rfl, hs.afterIn, rfl⟩,
      _, matches_group_many_iff.mpr ⟨_, _, hs.elements_ne, rfl, hbreak.mpr hs.elements, rfl⟩,
      matches_one_iff.mpr ⟨_, rfl, rfl⟩⟩

/-- The rule finds nothing at a position if and only if no header begins there. -/
lemma matchAt?_forIn_eq_none_iff : forInPattern.matchAt? ⟨before, rest⟩ = none ↔
    ∀ h : Header, h.Shaped → ¬ h.text <+: rest := by
  rw [matchAt?_eq_none_iff]
  refine ⟨fun hnone h hs ⟨after, hrest⟩ => ?_, fun hnone t ht => ?_⟩
  · exact hnone _ (matches_forIn_iff.mpr ⟨h, hs, after, hrest.symm, rfl⟩)
  · obtain ⟨h, hs, after, hrest, -⟩ := matches_forIn_iff.mp ht
    exact hnone h hs ⟨after, hrest.symm⟩

end Rule

namespace Rules

open Pattern Rule

/-- **The standard rules change headers only.** A header between texts without its word becomes the
one that counts, and the texts around it stay. Code in which the pattern of the rule matches nowhere
stays as a whole. The pattern matches where the text of a header begins and nowhere else. -/
theorem apply_standard :
    (∀ (h : Header) (lead rest : List Char), h.Proper → ¬ "for".toList <:+: lead →
      ¬ "for".toList <:+: rest → standard.apply (.ofList (lead ++ (h.text ++ rest))) =
        .ofList (lead ++ (h.counting ++ rest))) ∧
    (∀ code : String, (∀ before rest, code.toList = before ++ rest →
      forInPattern.matchAt? ⟨before.reverse, rest⟩ = none) → standard.apply code = code) ∧
    ∀ before rest : List Char, forInPattern.matchAt? ⟨before, rest⟩ = none ↔
      ∀ h : Header, h.Shaped → ¬ h.text <+: rest := by
  refine ⟨fun h lead rest hp hlead hrest => ?_, fun code hcode => ?_, fun before rest => ?_⟩
  · exact apply_header hp hlead hrest
  · exact apply_of_unmatched hcode
  · exact matchAt?_forIn_eq_none_iff

/-- The header `for( row  in	page.rows)`, with a tab before its elements. -/
def rowsHeader : Header := ⟨"row".toList, "page.rows".toList, [], [' '], [' ', ' '], ['\t']⟩

/-- The header of a loop that counts already. -/
def countingCode : List Char := "for (var i = 0; i < 3; i++) \x7b".toList

/-- A header among parts of its word, and one that is none for the rule. -/
theorem apply_standard_rows :
    standard.apply (.ofList ("if (of) fo".toList ++ (rowsHeader.text ++ " r in (f)".toList))) =
      .ofList ("if (of) fo".toList ++ (rowsHeader.counting ++ " r in (f)".toList)) ∧
    standard.apply (.ofList countingCode) = .ofList countingCode := by
  have helements : rowsHeader.elements.all (fun c => c != ')' && c != '\n') = true := by decide
  have hproper : rowsHeader.Proper :=
    { name_ne := by decide
      name := List.all_eq_true.mp (by decide)
      elements_ne := by decide
      elements c hc := by simpa using List.all_eq_true.mp helements c hc
      head c hc := by
        cases hc
        decide
      beforeParen := List.all_eq_true.mp rfl
      afterParen := List.all_eq_true.mp rfl
      beforeIn_ne := List.cons_ne_nil _ _
      beforeIn := List.all_eq_true.mp rfl
      afterIn_ne := List.cons_ne_nil _ _
      afterIn := List.all_eq_true.mp rfl }
  have hunmatched : ∀ n < countingCode.length + 1, forInPattern.matchAt?
      ⟨(countingCode.take n).reverse, countingCode.drop n⟩ = none := by
    decide +kernel
  refine ⟨apply_standard.1 rowsHeader _ _ hproper (by decide +kernel) (by decide +kernel),
    apply_standard.2.1 _ fun before rest hsplit => ?_⟩
  rw [String.toList_ofList] at hsplit
  have hlen : before.length < countingCode.length + 1 := by
    rw [hsplit, List.length_append]
    omega
  have hhere := hunmatched before.length hlen
  rwa [hsplit, List.take_left, List.drop_left] at hhere

end Rules

end Stencil
