import Mathlib.Logic.Relation
import Mathlib.Tactic.Common
import Stencil.Pattern

/-!
What a pattern matches, whichever of its ways is tried first.

A pattern relates the state before it to the states after it. The search goes through these states
in some order and stops at the first one that the rest of the search accepts. So it fails only if
there is no such state, and whether a repetition is greedy does not matter for that.
-/

namespace Stencil.Pattern

/-- A further round of a repetition, which has to consume something. -/
def Round (step : State → State → Prop) (s t : State) : Prop :=
  step s t ∧ t.cursor.rest.length < s.cursor.rest.length

/-- The pattern leads from a state to another. -/
def Matches : Pattern → State → State → Prop
  | .empty, s, t => t = s
  | .char set, s, t => ∃ c rest, s.cursor.rest = c :: rest ∧ set.has c = true ∧
      t = { s with cursor := ⟨c :: s.cursor.before, rest⟩ }
  | .boundary negated, s, t => (s.cursor.atBoundary != negated) = true ∧ t = s
  | .start, s, t => s.cursor.before.isEmpty = true ∧ t = s
  | .finish, s, t => s.cursor.rest.isEmpty = true ∧ t = s
  | .seq a b, s, t => ∃ mid, Matches a s mid ∧ Matches b mid t
  | .alt a b, s, t => Matches a s t ∨ Matches b s t
  | .maybe _ p, s, t => t = s ∨ Matches p s t
  | .many _ p, s, t => ∃ mid, Matches p s mid ∧ Relation.ReflTransGen (Round (Matches p)) mid t
  | .group i p, s, t => ∃ mid, Matches p s mid ∧
      t = { mid with captures := (i, mid.cursor.since s.cursor) :: mid.captures }

variable {p : Pattern} {s t r : State} {k : State → Option State}

/-! ### The search against the relation -/

/-- A search that stops only where the relation leads, and that finds a state if it leads to one
that the rest of the search accepts. -/
structure Searches (search : State → (State → Option State) → Option State)
    (step : State → State → Prop) : Prop where
  sound : ∀ {s k r}, search s k = some r → ∃ t, step s t ∧ k t = some r
  complete : ∀ {s t k}, step s t → k t ≠ none → search s k ≠ none

lemma orElse_ne_none {x y : Option State} :
    (x.orElse fun _ => y) ≠ none ↔ x ≠ none ∨ y ≠ none := by
  cases x <;> simp

lemma orElse_eq_some {x y : Option State} (h : (x.orElse fun _ => y) = some r) :
    x = some r ∨ y = some r := by
  cases x with
  | none => exact .inr h
  | some _ => exact .inl h

/-- Two ways are both tried, whichever of them comes first. -/
lemma either_eq_some {greedy : Bool} {more stop : Option State}
    (h : (if greedy then more.orElse fun _ => stop else stop.orElse fun _ => more) = some r) :
    stop = some r ∨ more = some r := by
  cases greedy with
  | true => exact (orElse_eq_some h).symm
  | false => exact orElse_eq_some h

lemma either_ne_none {greedy : Bool} {more stop : Option State} :
    (if greedy then more.orElse fun _ => stop else stop.orElse fun _ => more) ≠ none ↔
      stop ≠ none ∨ more ≠ none := by
  cases greedy with
  | true => exact orElse_ne_none.trans or_comm
  | false => exact orElse_ne_none

lemma run_maybe {greedy : Bool} : run (.maybe greedy p) s k =
    if greedy then (run p s k).orElse fun _ => k s else (k s).orElse fun _ => run p s k := by
  cases greedy <;> rfl

/-- A test of the position consumes nothing. -/
lemma Searches.guard (test : State → Bool) :
    Searches (fun s k => if test s = true then k s else none)
      (fun s t => test s = true ∧ t = s) where
  sound h := by
    obtain ⟨htest, hk⟩ := Option.ite_none_right_eq_some.mp h
    exact ⟨_, ⟨htest, rfl⟩, hk⟩
  complete := by
    rintro s _ k ⟨htest, rfl⟩ hk
    rwa [if_pos htest]

section Rounds

variable {search : State → (State → Option State) → Option State} {step : State → State → Prop}
  {greedy : Bool} {n : ℕ}

lemma Searches.rounds_sound (hs : Searches search step) (h : rounds greedy search n s k = some r) :
    ∃ t, Relation.ReflTransGen (Round step) s t ∧ k t = some r := by
  induction n generalizing s with
  | zero => exact ⟨s, .refl, h⟩
  | succ n ih =>
    rw [rounds] at h
    rcases either_eq_some h with hk | hround
    · exact ⟨s, .refl, hk⟩
    · obtain ⟨mid, hstep, hmid⟩ := hs.sound hround
      obtain ⟨hlt, hrest⟩ := Option.ite_none_right_eq_some.mp hmid
      obtain ⟨t, hrounds, hk⟩ := ih hrest
      exact ⟨t, .head ⟨hstep, hlt⟩ hrounds, hk⟩

/-- The characters that are left bound the rounds, since each of them consumes one. -/
lemma Searches.rounds_complete (hs : Searches search step)
    (hrounds : Relation.ReflTransGen (Round step) s t) (hk : k t ≠ none)
    (hn : s.cursor.rest.length ≤ n) : rounds greedy search n s k ≠ none := by
  induction hrounds using Relation.ReflTransGen.head_induction_on generalizing n with
  | refl =>
    cases n with
    | zero => exact hk
    | succ n =>
      rw [rounds]
      exact either_ne_none.mpr (.inl hk)
  | @head s mid hround _ ih =>
    obtain ⟨hstep, hlt⟩ := hround
    obtain ⟨n, rfl⟩ := Nat.exists_eq_add_one_of_ne_zero (n := n) (by omega)
    rw [rounds]
    refine either_ne_none.mpr (.inr (hs.complete hstep ?_))
    rw [if_pos hlt]
    exact ih (by omega)

end Rounds

/-- **The search follows the relation** of its pattern, one constructor at a time. -/
theorem searches (p : Pattern) : Searches (run p) (Matches p) := by
  induction p with
  | empty => exact ⟨fun h => ⟨_, rfl, h⟩, fun ht hk => ht ▸ hk⟩
  | char set =>
    refine ⟨fun {s k r} h => ?_, fun {s t k} ht hk => ?_⟩
    · rw [run] at h
      split at h
      · rename_i c rest hrest
        obtain ⟨hc, hk⟩ := Option.ite_none_right_eq_some.mp h
        exact ⟨_, ⟨c, rest, hrest, hc, rfl⟩, hk⟩
      · cases h
    · obtain ⟨c, rest, hrest, hc, rfl⟩ := ht
      rw [run, hrest]
      dsimp only
      rwa [if_pos hc]
  | boundary negated => exact .guard fun s => s.cursor.atBoundary != negated
  | start => exact .guard fun s => s.cursor.before.isEmpty
  | finish => exact .guard fun s => s.cursor.rest.isEmpty
  | seq a b iha ihb =>
    refine ⟨fun h => ?_, fun ⟨mid, ha, hb⟩ hk => ?_⟩
    · obtain ⟨mid, ha, hmid⟩ := iha.sound h
      obtain ⟨t, hb, hk⟩ := ihb.sound hmid
      exact ⟨t, ⟨mid, ha, hb⟩, hk⟩
    · exact iha.complete ha (ihb.complete hb hk)
  | alt a b iha ihb =>
    refine ⟨fun h => ?_, fun ht hk => ?_⟩
    · rcases orElse_eq_some h with ha | hb
      · obtain ⟨t, ht, hk⟩ := iha.sound ha
        exact ⟨t, .inl ht, hk⟩
      · obtain ⟨t, ht, hk⟩ := ihb.sound hb
        exact ⟨t, .inr ht, hk⟩
    · exact orElse_ne_none.mpr (ht.imp (iha.complete · hk) (ihb.complete · hk))
  | maybe greedy p ih =>
    refine ⟨fun {s k r} h => ?_, fun {s t k} ht hk => ?_⟩
    · rw [run_maybe] at h
      rcases either_eq_some h with hk | hp
      · exact ⟨s, .inl rfl, hk⟩
      · obtain ⟨t, ht, hk⟩ := ih.sound hp
        exact ⟨t, .inr ht, hk⟩
    · rw [run_maybe]
      exact either_ne_none.mpr
        (ht.imp (fun hts : t = s => hts ▸ hk) fun hp => ih.complete hp hk)
  | many greedy p ih =>
    refine ⟨fun h => ?_, fun ⟨mid, hp, hrounds⟩ hk => ?_⟩
    · obtain ⟨mid, hp, hmid⟩ := ih.sound h
      obtain ⟨t, hrounds, hk⟩ := ih.rounds_sound hmid
      exact ⟨t, ⟨mid, hp, hrounds⟩, hk⟩
    · exact ih.complete hp (ih.rounds_complete hrounds hk (Nat.le_refl _))
  | group i p ih =>
    refine ⟨fun h => ?_, fun ⟨mid, hp, ht⟩ hk => ?_⟩
    · obtain ⟨mid, hp, hk⟩ := ih.sound h
      exact ⟨_, ⟨mid, hp, rfl⟩, hk⟩
    · exact ih.complete hp (ht ▸ hk)

/-- **There is no match at a position** if and only if the pattern leads nowhere from there. -/
theorem matchAt?_eq_none_iff {c : Cursor} :
    p.matchAt? c = none ↔ ∀ t, ¬ Matches p ⟨c, []⟩ t := by
  refine ⟨fun h t ht => ?_, fun h => ?_⟩
  · have hmatch : Matches (.group 0 p) ⟨c, []⟩
        { t with captures := (0, t.cursor.since c) :: t.captures } := ⟨t, ht, rfl⟩
    exact (searches (.group 0 p)).complete hmatch (Option.some_ne_none _) h
  · by_contra hne
    obtain ⟨r, hr⟩ := Option.ne_none_iff_exists'.mp hne
    obtain ⟨_, ⟨t, ht, -⟩, -⟩ := (searches (.group 0 p)).sound hr
    exact h t ht

/-! ### Runs of characters -/

variable {set : CharSet} {xs before rest : List Char} {captures : Captures}

lemma matches_one_iff {c : Char} : Matches (.char (.one c)) ⟨⟨before, rest⟩, captures⟩ t ↔
    ∃ after, rest = c :: after ∧ t = ⟨⟨c :: before, after⟩, captures⟩ := by
  constructor
  · rintro ⟨d, after, rfl, hd, rfl⟩
    obtain rfl : d = c := by simpa [CharSet.has] using hd
    exact ⟨after, rfl, rfl⟩
  · rintro ⟨after, rfl, rfl⟩
    exact ⟨c, after, rfl, by simp [CharSet.has], rfl⟩

lemma rounds_char_iff : Relation.ReflTransGen (Round (Matches (.char set)))
      ⟨⟨before, rest⟩, captures⟩ t ↔
    ∃ xs after, rest = xs ++ after ∧ (∀ c ∈ xs, set.has c = true) ∧
      t = ⟨⟨xs.reverse ++ before, after⟩, captures⟩ := by
  constructor
  · intro h
    induction h with
    | refl => exact ⟨[], rest, rfl, by simp, rfl⟩
    | tail _ hround ih =>
      obtain ⟨xs, after, rfl, hxs, rfl⟩ := ih
      obtain ⟨c, after, rfl, hc, rfl⟩ := hround.1
      refine ⟨xs ++ [c], after, by simp, fun d hd => ?_, by simp⟩
      rcases List.mem_append.mp hd with hd | hd
      · exact hxs d hd
      · rwa [List.mem_singleton.mp hd]
  · rintro ⟨xs, after, rfl, hxs, rfl⟩
    induction xs generalizing before with
    | nil => exact .refl
    | cons c xs ih =>
      have htail : Relation.ReflTransGen (Round (Matches (.char set)))
          ⟨⟨c :: before, xs ++ after⟩, captures⟩
          ⟨⟨(c :: xs).reverse ++ before, after⟩, captures⟩ := by
        rw [List.reverse_cons, List.append_assoc]
        exact ih fun d hd => hxs d (List.mem_cons_of_mem _ hd)
      exact .head ⟨⟨c, xs ++ after, rfl, hxs c List.mem_cons_self, rfl⟩, by simp⟩ htail

/-- A repetition of a set takes any non-empty run of its characters. -/
lemma matches_many_char_iff {greedy : Bool} :
    Matches (.many greedy (.char set)) ⟨⟨before, rest⟩, captures⟩ t ↔
      ∃ xs after, xs ≠ [] ∧ rest = xs ++ after ∧ (∀ c ∈ xs, set.has c = true) ∧
        t = ⟨⟨xs.reverse ++ before, after⟩, captures⟩ := by
  constructor
  · rintro ⟨_, ⟨c, rest, rfl, hc, rfl⟩, hrounds⟩
    obtain ⟨xs, after, rfl, hxs, rfl⟩ := rounds_char_iff.mp hrounds
    exact ⟨c :: xs, after, by simp, rfl, List.forall_mem_cons.mpr ⟨hc, hxs⟩, by simp⟩
  · rintro ⟨xs, after, hne, rfl, hxs, rfl⟩
    obtain ⟨c, xs, rfl⟩ := List.exists_cons_of_ne_nil hne
    refine ⟨_, ⟨c, xs ++ after, rfl, hxs c List.mem_cons_self, rfl⟩, rounds_char_iff.mpr ?_⟩
    exact ⟨xs, after, rfl, fun d hd => hxs d (List.mem_cons_of_mem _ hd), by simp⟩

lemma matches_maybe_many_char_iff {greedy greedy' : Bool} :
    Matches (.maybe greedy (.many greedy' (.char set))) ⟨⟨before, rest⟩, captures⟩ t ↔
      ∃ xs after, rest = xs ++ after ∧ (∀ c ∈ xs, set.has c = true) ∧
        t = ⟨⟨xs.reverse ++ before, after⟩, captures⟩ := by
  constructor
  · rintro (rfl | h)
    · exact ⟨[], rest, rfl, by simp, rfl⟩
    · obtain ⟨xs, after, -, hrest, hxs, ht⟩ := matches_many_char_iff.mp h
      exact ⟨xs, after, hrest, hxs, ht⟩
  · rintro ⟨xs, after, rfl, hxs, rfl⟩
    rcases eq_or_ne xs [] with rfl | hne
    · exact .inl rfl
    · exact .inr (matches_many_char_iff.mpr ⟨xs, after, hne, rfl, hxs, rfl⟩)

/-! ### Groups -/

lemma since_append : (⟨xs.reverse ++ before, rest⟩ : Cursor).since ⟨before, xs ++ rest⟩ = xs := by
  simp [Cursor.since]

lemma matches_group_many_iff {greedy : Bool} {i : ℕ} :
    Matches (.group i (.many greedy (.char set))) ⟨⟨before, rest⟩, captures⟩ t ↔
      ∃ xs after, xs ≠ [] ∧ rest = xs ++ after ∧ (∀ c ∈ xs, set.has c = true) ∧
        t = ⟨⟨xs.reverse ++ before, after⟩, (i, xs) :: captures⟩ := by
  constructor
  · rintro ⟨_, hmany, rfl⟩
    obtain ⟨xs, after, hne, rfl, hxs, rfl⟩ := matches_many_char_iff.mp hmany
    exact ⟨xs, after, hne, rfl, hxs, by rw [since_append]⟩
  · rintro ⟨xs, after, hne, rfl, hxs, rfl⟩
    refine ⟨_, matches_many_char_iff.mpr ⟨xs, after, hne, rfl, hxs, rfl⟩, ?_⟩
    rw [since_append]

end Stencil.Pattern
