import Mathlib.Tactic.Common
import Mathlib.Data.List.Basic
import Stencil.Proofs.Rewrite.Matching
import Stencil.Proofs.Text.Blank
import Stencil.Rewrite

/-!
What the rewrite rule for loops over elements makes of a header.

Neighbouring parts of a header have no character in common. So every repetition in the pattern of
the rule ends where its part of the header ends, and nothing that it took is given back.
-/

namespace Stencil

namespace Pattern

/-! ### Runs of repetitions -/

variable {set : CharSet} {xs rest before : List Char} {captures : Captures}
  {k : State → Option State} {t : State}

lemma run_char {c : Char} (h : set.has c = true) :
    run (.char set) ⟨⟨before, c :: rest⟩, captures⟩ k = k ⟨⟨c :: before, rest⟩, captures⟩ := by
  simp [run, h]

lemma run_char_eq_none (h : ∀ c ∈ rest.head?, set.has c = false) :
    run (.char set) ⟨⟨before, rest⟩, captures⟩ k = none := by
  cases rest with
  | nil => rfl
  | cons c rest => simp [run, h c rfl]

/-- A greedy repetition takes all characters that it can take. -/
lemma rounds_greedy {n : Nat} (hxs : ∀ c ∈ xs, set.has c = true)
    (hrest : ∀ c ∈ rest.head?, set.has c = false) (hn : xs.length ≤ n)
    (hk : k ⟨⟨xs.reverse ++ before, rest⟩, captures⟩ = some t) :
    rounds true (run (.char set)) n ⟨⟨before, xs ++ rest⟩, captures⟩ k = some t := by
  induction xs generalizing before n with
  | nil =>
    cases n with
    | zero => exact hk
    | succ n =>
      rw [rounds, List.nil_append, run_char_eq_none hrest]
      exact hk
  | cons c xs ih =>
    obtain ⟨n, rfl⟩ := Nat.exists_eq_add_one_of_ne_zero (n := n) (by simp at hn; omega)
    have hc : set.has c = true := hxs c List.mem_cons_self
    have hrec : rounds true (run (.char set)) n ⟨⟨c :: before, xs ++ rest⟩, captures⟩ k = some t :=
      ih (fun d hd => hxs d (List.mem_cons_of_mem _ hd)) (by simpa using hn) (by simpa using hk)
    rw [rounds, List.cons_append, run_char hc]
    simp only [List.length_cons, Nat.lt_add_one, if_true, hrec]
    rfl

lemma run_many (hne : xs ≠ []) (hxs : ∀ c ∈ xs, set.has c = true)
    (hrest : ∀ c ∈ rest.head?, set.has c = false)
    (hk : k ⟨⟨xs.reverse ++ before, rest⟩, captures⟩ = some t) :
    run (.many true (.char set)) ⟨⟨before, xs ++ rest⟩, captures⟩ k = some t := by
  obtain ⟨c, xs, rfl⟩ := List.exists_cons_of_ne_nil hne
  rw [run, List.cons_append, run_char (hxs c List.mem_cons_self)]
  refine rounds_greedy (fun d hd => hxs d (List.mem_cons_of_mem _ hd)) hrest ?_ (by simpa using hk)
  simp

lemma run_maybe_many (hxs : ∀ c ∈ xs, set.has c = true)
    (hrest : ∀ c ∈ rest.head?, set.has c = false)
    (hk : k ⟨⟨xs.reverse ++ before, rest⟩, captures⟩ = some t) :
    run (.maybe true (.many true (.char set))) ⟨⟨before, xs ++ rest⟩, captures⟩ k = some t := by
  rcases eq_or_ne xs [] with rfl | hne
  · have hnone : run (.many true (.char set)) ⟨⟨before, [] ++ rest⟩, captures⟩ k = none := by
      rw [run]
      exact run_char_eq_none hrest
    rw [run, hnone]
    exact hk
  · rw [run, run_many hne hxs hrest hk]
    rfl

/-- A lazy repetition goes on for as long as the rest of the pattern does not match. -/
lemma rounds_lazy {n : Nat} (hxs : ∀ c ∈ xs, set.has c = true) (hn : xs.length ≤ n)
    (hstop : ∀ s : State, (∃ c ∈ xs, s.cursor.rest.head? = some c) → k s = none)
    (hk : k ⟨⟨xs.reverse ++ before, rest⟩, captures⟩ = some t) :
    rounds false (run (.char set)) n ⟨⟨before, xs ++ rest⟩, captures⟩ k = some t := by
  induction xs generalizing before n with
  | nil =>
    cases n with
    | zero => exact hk
    | succ n =>
      rw [rounds]
      simp only [List.reverse_nil, List.nil_append] at hk
      simp [hk]
  | cons c xs ih =>
    obtain ⟨n, rfl⟩ := Nat.exists_eq_add_one_of_ne_zero (n := n) (by simp at hn; omega)
    have hc : set.has c = true := hxs c List.mem_cons_self
    have hnone : k ⟨⟨before, c :: (xs ++ rest)⟩, captures⟩ = none :=
      hstop _ ⟨c, List.mem_cons_self, rfl⟩
    have hrec : rounds false (run (.char set)) n ⟨⟨c :: before, xs ++ rest⟩, captures⟩ k = some t :=
      ih (fun d hd => hxs d (List.mem_cons_of_mem _ hd)) (by simpa using hn)
        (fun s hs => hstop s (hs.imp fun _ => And.imp_left (List.mem_cons_of_mem _)))
        (by simpa using hk)
    rw [rounds, List.cons_append]
    simp only [Bool.false_eq_true, if_false, hnone, run_char hc, List.length_cons,
      Nat.lt_add_one, if_true, hrec]
    rfl

lemma run_many_lazy (hne : xs ≠ []) (hxs : ∀ c ∈ xs, set.has c = true)
    (hstop : ∀ s : State, (∃ c ∈ xs, s.cursor.rest.head? = some c) → k s = none)
    (hk : k ⟨⟨xs.reverse ++ before, rest⟩, captures⟩ = some t) :
    run (.many false (.char set)) ⟨⟨before, xs ++ rest⟩, captures⟩ k = some t := by
  obtain ⟨c, xs, rfl⟩ := List.exists_cons_of_ne_nil hne
  rw [run, List.cons_append, run_char (hxs c List.mem_cons_self)]
  refine rounds_lazy (fun d hd => hxs d (List.mem_cons_of_mem _ hd)) (by simp)
    (fun s hs => hstop s (hs.imp fun _ => And.imp_left (List.mem_cons_of_mem _)))
    (by simpa using hk)

/-! ### Groups -/

lemma run_group_many {i : Nat} (hne : xs ≠ []) (hxs : ∀ c ∈ xs, set.has c = true)
    (hrest : ∀ c ∈ rest.head?, set.has c = false)
    (hk : k ⟨⟨xs.reverse ++ before, rest⟩, (i, xs) :: captures⟩ = some t) :
    run (.group i (.many true (.char set))) ⟨⟨before, xs ++ rest⟩, captures⟩ k = some t := by
  rw [run]
  refine run_many hne hxs hrest ?_
  dsimp only
  rw [since_append]
  exact hk

lemma run_group_many_lazy {i : Nat} (hne : xs ≠ []) (hxs : ∀ c ∈ xs, set.has c = true)
    (hstop : ∀ s : State, (∃ c ∈ xs, s.cursor.rest.head? = some c) → k s = none)
    (hk : k ⟨⟨xs.reverse ++ before, rest⟩, (i, xs) :: captures⟩ = some t) :
    run (.group i (.many false (.char set))) ⟨⟨before, xs ++ rest⟩, captures⟩ k = some t := by
  rw [run]
  refine run_many_lazy hne hxs (fun s hs => hstop _ hs) ?_
  dsimp only
  rw [since_append]
  exact hk

/-! ### Texts without a match -/

/-- A text in which no match begins is left as it is. -/
lemma replaceWithin_untouched {p : Pattern} {r : Replacement} {n : Nat} {afterMatch : Bool}
    (h : ∀ mid ys, rest = mid ++ ys → p.matchAt? ⟨mid.reverse ++ before, ys⟩ = none)
    (hn : rest.length < n) : replaceWithin p r n afterMatch ⟨before, rest⟩ = rest := by
  have hhere : p.matchAt? ⟨before, rest⟩ = none := h [] rest rfl
  induction rest generalizing before n afterMatch with
  | nil =>
    obtain ⟨n, rfl⟩ := Nat.exists_eq_add_one_of_ne_zero (n := n) (by omega)
    rw [replaceWithin, hhere]
    rfl
  | cons c rest ih =>
    obtain ⟨n, rfl⟩ := Nat.exists_eq_add_one_of_ne_zero (n := n) (by omega)
    have hlater : ∀ mid ys, rest = mid ++ ys →
        p.matchAt? ⟨mid.reverse ++ c :: before, ys⟩ = none := fun mid ys hrest => by
      simpa using h (c :: mid) ys (by simp [hrest])
    have hrec : replaceWithin p r n false ⟨c :: before, rest⟩ = rest :=
      ih hlater (by simpa using hn) (hlater [] rest rfl)
    rw [replaceWithin, hhere]
    simp only [copyOne, hrec]

end Pattern

/-! ### Headers -/

namespace Rule

/-- A header and the blanks between its parts. -/
structure Header where
  name : List Char
  elements : List Char
  beforeParen : List Char
  afterParen : List Char
  beforeIn : List Char
  afterIn : List Char

/-- The header is one that the rule reads as it is meant. -/
structure Header.Proper (h : Header) : Prop where
  name_ne : h.name ≠ []
  name : ∀ c ∈ h.name, Text.isWord c = true
  elements_ne : h.elements ≠ []
  elements : ∀ c ∈ h.elements, c ≠ ')' ∧ c ≠ '\n'
  head : ∀ c ∈ h.elements.head?, Text.isBlank c = false
  beforeParen : ∀ c ∈ h.beforeParen, Text.isBlank c = true
  afterParen : ∀ c ∈ h.afterParen, Text.isBlank c = true
  beforeIn_ne : h.beforeIn ≠ []
  beforeIn : ∀ c ∈ h.beforeIn, Text.isBlank c = true
  afterIn_ne : h.afterIn ≠ []
  afterIn : ∀ c ∈ h.afterIn, Text.isBlank c = true

namespace Header

def text (h : Header) : List Char :=
  "for".toList ++ h.beforeParen ++ "(".toList ++ h.afterParen ++ h.name ++ h.beforeIn ++
    "in".toList ++ h.afterIn ++ h.elements ++ ")".toList

/-- The header of the loop that counts through the elements. -/
def counting (h : Header) : List Char :=
  "for (var _".toList ++ h.name ++ " = 0, __".toList ++ h.name ++ " = (".toList ++ h.elements ++
    ").length, ".toList ++ h.name ++ "; ".toList ++ h.name ++ " = (".toList ++ h.elements ++
    ")[_".toList ++ h.name ++ "], _".toList ++ h.name ++ " < __".toList ++ h.name ++
    "; ++_".toList ++ h.name ++ ")".toList

variable {h : Header} {before rest : List Char}

lemma text_append : h.text ++ rest = 'f' :: 'o' :: 'r' :: (h.beforeParen ++ '(' :: (h.afterParen ++
    (h.name ++ (h.beforeIn ++ 'i' :: 'n' :: (h.afterIn ++ (h.elements ++ ')' :: rest)))))) := by
  unfold text
  simp

lemma reverse_text_append : h.text.reverse ++ before =
    ')' :: (h.elements.reverse ++ (h.afterIn.reverse ++ 'n' :: 'i' :: (h.beforeIn.reverse ++
      (h.name.reverse ++ (h.afterParen.reverse ++ '(' :: (h.beforeParen.reverse ++
        'r' :: 'o' :: 'f' :: before)))))) := by
  unfold text
  simp

lemma text_length_pos : 0 < h.text.length := by
  unfold text
  simp

end Header

open Pattern

variable {h : Header} {before rest : List Char}

lemma forInPattern_eq : forInPattern =
    .seq (.char (.one 'f')) (.seq (.char (.one 'o')) (.seq (.char (.one 'r'))
      (.seq (.maybe true (.many true (.char .blank))) (.seq (.char (.one '('))
        (.seq (.maybe true (.many true (.char .blank)))
          (.seq (.group 1 (.many true (.char .word))) (.seq (.many true (.char .blank))
            (.seq (.char (.one 'i')) (.seq (.char (.one 'n')) (.seq (.many true (.char .blank))
              (.seq (.group 2 (.many false (.char .anyButBreak)))
                (.char (.one ')')))))))))))))  := rfl

/-- The first character of a text comes from its first part if that is not empty. -/
lemma head?_append_mem {xs ys : List Char} (hne : xs ≠ []) {c : Char}
    (hc : c ∈ (xs ++ ys).head?) : c ∈ xs := by
  obtain ⟨d, xs, rfl⟩ := List.exists_cons_of_ne_nil hne
  obtain rfl : d = c := by simpa using hc
  exact List.mem_cons_self

lemma run_header {k : State → Option State} {t : State} (hp : h.Proper)
    (hk : k ⟨⟨h.text.reverse ++ before, rest⟩, [(2, h.elements), (1, h.name)]⟩ = some t) :
    run forInPattern ⟨⟨before, h.text ++ rest⟩, []⟩ k = some t := by
  have hsame (c : Char) : (CharSet.one c).has c = true := by simp [CharSet.has]
  have hword : ∀ c ∈ h.name, CharSet.blank.has c = false := fun c hc => by
    by_contra hblank
    have hnot := Text.isWord_eq_false (by simpa [CharSet.has] using hblank)
    rw [hp.name c hc] at hnot
    cases hnot
  have hblank : ∀ c ∈ h.beforeIn, CharSet.word.has c = false := fun c hc =>
    Text.isWord_eq_false (hp.beforeIn c hc)
  have helements : ∀ c ∈ h.elements, CharSet.anyButBreak.has c = true := fun c hc => by
    simpa [CharSet.has] using (hp.elements c hc).2
  rw [Header.text_append, forInPattern_eq, run, run_char (hsame _), run, run_char (hsame _), run,
    run_char (hsame _), run]
  refine run_maybe_many hp.beforeParen (by simp [CharSet.has]; decide) ?_
  rw [run, run_char (hsame _), run]
  refine run_maybe_many hp.afterParen (fun c hc => hword c (head?_append_mem hp.name_ne hc)) ?_
  rw [run]
  refine run_group_many hp.name_ne hp.name
    (fun c hc => hblank c (head?_append_mem hp.beforeIn_ne hc)) ?_
  rw [run]
  refine run_many hp.beforeIn_ne hp.beforeIn (by simp [CharSet.has]; decide) ?_
  rw [run, run_char (hsame _), run, run_char (hsame _), run]
  refine run_many hp.afterIn_ne hp.afterIn (fun c hc => ?_) ?_
  · obtain ⟨d, xs, hxs⟩ := List.exists_cons_of_ne_nil hp.elements_ne
    refine hp.head c ?_
    rw [hxs] at hc ⊢
    exact hc
  rw [run]
  refine run_group_many_lazy hp.elements_ne helements ?_ ?_
  · -- no element is the closing parenthesis that has to come next
    rintro ⟨⟨b, cs⟩, captures⟩ ⟨c, hc, hcs⟩
    refine run_char_eq_none fun d hd => ?_
    obtain rfl : c = d := by simpa [hcs] using hd
    simpa [CharSet.has] using (hp.elements c hc).1
  · rw [run_char (hsame _), ← Header.reverse_text_append]
    exact hk

/-- **A header matches as a whole**, and its name and its elements are the groups. -/
lemma matchAt?_header (hp : h.Proper) :
    forInPattern.matchAt? ⟨before, h.text ++ rest⟩ =
      some ⟨⟨h.text.reverse ++ before, rest⟩, [(0, h.text), (2, h.elements), (1, h.name)]⟩ := by
  rw [matchAt?, run]
  refine run_header hp ?_
  dsimp only
  rw [since_append]

/-- A match begins with the word of a header. -/
lemma matchAt?_eq_none (hrest : ¬ "for".toList <+: rest) :
    forInPattern.matchAt? ⟨before, rest⟩ = none := by
  rw [matchAt?_eq_none_iff, forInPattern_eq]
  rintro t ⟨_, hf, _, ho, _, hr, -⟩
  obtain ⟨_, rfl, rfl⟩ := matches_one_iff.mp hf
  obtain ⟨_, rfl, rfl⟩ := matches_one_iff.mp ho
  obtain ⟨after, rfl, rfl⟩ := matches_one_iff.mp hr
  exact hrest ⟨after, rfl⟩

lemma expand_header : forInReplacement.expand [(0, h.text), (2, h.elements), (1, h.name)] =
    h.counting := by
  have hname : List.lookup 1 [(0, h.text), (2, h.elements), (1, h.name)] = some h.name := rfl
  have helements : List.lookup 2 [(0, h.text), (2, h.elements), (1, h.name)] =
    some h.elements := rfl
  unfold Header.counting
  simp only [Replacement.expand, forInReplacement, List.flatMap_cons, List.flatMap_nil, hname,
    helements, Option.getD_some, List.append_assoc, List.append_nil]

/-! ### Whole texts -/

/-- Text without the word is left as it is. -/
lemma replaceWithin_of_not_infix {n : Nat} {afterMatch : Bool} (hrest : ¬ "for".toList <:+: rest)
    (hn : rest.length < n) :
    replaceWithin forInPattern forInReplacement n afterMatch ⟨before, rest⟩ = rest :=
  replaceWithin_untouched (fun mid ys hys => matchAt?_eq_none fun hpre =>
    hrest (hys ▸ hpre.isInfix.trans (List.suffix_append mid ys).isInfix)) hn

lemma replaceWithin_header {n : Nat} {afterMatch : Bool} (hp : h.Proper)
    (hrest : ¬ "for".toList <:+: rest) (hn : rest.length < n) :
    replaceWithin forInPattern forInReplacement (n + 1) afterMatch ⟨before, h.text ++ rest⟩ =
      h.counting ++ rest := by
  have hpos := h.text_length_pos
  have hlen : rest.length < (h.text ++ rest).length := by
    rw [List.length_append]
    omega
  rw [replaceWithin, matchAt?_header hp]
  dsimp only
  rw [if_pos hlen, expand_header, replaceWithin_of_not_infix hrest hn]

/-- The word does not begin before a header and end in it. -/
lemma not_prefix_cons {c : Char} {lead : List Char} (hlead : ¬ "for".toList <:+: c :: lead) :
    ¬ "for".toList <+: c :: (lead ++ (h.text ++ rest)) := by
  obtain ⟨ys, hys⟩ : ∃ ys, h.text ++ rest = 'f' :: ys := ⟨_, Header.text_append⟩
  rw [hys]
  rintro ⟨zs, hzs⟩
  have hword : "for".toList = ['f', 'o', 'r'] := rfl
  rw [hword] at hzs hlead
  match lead, hzs with
  | [], hzs => simp at hzs
  | [_], hzs => simp at hzs
  | o :: r :: lead, hzs =>
    simp only [List.cons_append, List.nil_append, List.cons.injEq] at hzs
    obtain ⟨rfl, rfl, rfl, -⟩ := hzs
    exact hlead ⟨[], lead, rfl⟩

/-- The text before a header is copied. -/
lemma replaceWithin_lead {n : Nat} {afterMatch : Bool} {lead : List Char} (hp : h.Proper)
    (hlead : ¬ "for".toList <:+: lead) (hrest : ¬ "for".toList <:+: rest)
    (hn : (lead ++ (h.text ++ rest)).length < n) :
    replaceWithin forInPattern forInReplacement n afterMatch ⟨before, lead ++ (h.text ++ rest)⟩ =
      lead ++ (h.counting ++ rest) := by
  induction lead generalizing before n afterMatch with
  | nil =>
    obtain ⟨n, rfl⟩ := Nat.exists_eq_add_one_of_ne_zero (n := n) (by omega)
    have hpos := h.text_length_pos
    simp only [List.nil_append, List.length_append] at hn ⊢
    exact replaceWithin_header hp hrest (by omega)
  | cons c lead ih =>
    obtain ⟨n, rfl⟩ := Nat.exists_eq_add_one_of_ne_zero (n := n) (by omega)
    have hrec : replaceWithin forInPattern forInReplacement n false
        ⟨c :: before, lead ++ (h.text ++ rest)⟩ = lead ++ (h.counting ++ rest) :=
      ih (fun hin => hlead (hin.trans (List.suffix_cons _ _).isInfix)) (by simpa using hn)
    rw [replaceWithin, List.cons_append, matchAt?_eq_none (not_prefix_cons hlead)]
    simp only [copyOne, hrec, List.cons_append]

/-- **A header is rewritten** into that of the loop that counts through its elements, and nothing
around it changes. -/
theorem apply_header {lead : List Char} (hp : h.Proper) (hlead : ¬ "for".toList <:+: lead)
    (hrest : ¬ "for".toList <:+: rest) :
    forIn.apply (.ofList (lead ++ (h.text ++ rest))) =
      .ofList (lead ++ (h.counting ++ rest)) := by
  have hreplace : replaceWithin forInPattern forInReplacement
      ((lead ++ (h.text ++ rest)).length + 1) false ⟨[], lead ++ (h.text ++ rest)⟩ =
        lead ++ (h.counting ++ rest) := replaceWithin_lead hp hlead hrest (Nat.lt_succ_self _)
  rw [apply, forIn, replaceAll, String.toList_ofList]
  exact congrArg String.ofList hreplace

/-- Code in which the pattern of a rule matches nowhere is left as it is. -/
theorem apply_of_unmatched {r : Rule} {code : String} (h : ∀ before rest,
    code.toList = before ++ rest → r.pattern.matchAt? ⟨before.reverse, rest⟩ = none) :
    r.apply code = code := by
  have hreplace : replaceWithin r.pattern r.replacement (code.toList.length + 1) false
      ⟨[], code.toList⟩ = code.toList :=
    replaceWithin_untouched (fun mid ys hys => by simpa using h mid ys hys) (Nat.lt_succ_self _)
  rw [apply, replaceAll]
  refine (congrArg String.ofList hreplace).trans ?_
  exact String.ofList_toList

/-- Code without the word is left as it is. -/
theorem apply_of_not_infix {code : String} (hcode : ¬ "for".toList <:+: code.toList) :
    forIn.apply code = code :=
  apply_of_unmatched fun before rest hsplit => matchAt?_eq_none fun hpre =>
    hcode (hsplit ▸ hpre.isInfix.trans (List.suffix_append before rest).isInfix)

end Rule

end Stencil
