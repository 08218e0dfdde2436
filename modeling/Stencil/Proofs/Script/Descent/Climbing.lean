import Stencil.Proofs.Script.Descent.Following
import Stencil.Proofs.Script.Follow

/-!
Operators one after the other, and tier by tier.

A descent meets the operators between operands one after the other and compares their precedences,
where a reader has a loop of its own for each tier. The loops of the tiers do the same: an operator
that comes next is passed on to the loop of its tier, since no tighter tier has it, and after its
right side no operator of a tighter tier is left.
-/

namespace Stencil.Script

open Reader Grammar Level

variable {inner : Level} {items rest : List Item} {tier : Tier} {tighter ts : List Tier}
  {operand : Reader Expr} {left e : Expr} {join : Joiner} {kind : TokenKind} {m n : ℕ}

/-! ### Tiers -/

namespace Level

/-- What operators of the tiers join to an operand that has been read. The tightest tier comes
first. -/
def joinedBy (inner : Level) : List Tier → Expr → Reader Expr
  | [], left => pure left
  | tier :: tighter, left => do
    let left ← joinedBy inner tighter left
    bounded fun n => joined tier (tighter.foldr chain (unary inner)) n left

/-- Operators of all tiers are joined to the first operand. -/
lemma foldr_chain (ts : List Tier) :
    ts.foldr chain (unary inner) = unary inner >>= joinedBy inner ts := by
  induction ts with
  | nil => exact (bind_pure _).symm
  | cons tier tighter ih =>
    calc chain tier (tighter.foldr chain (unary inner))
        = tighter.foldr chain (unary inner) >>= fun left =>
            bounded fun n => joined tier (tighter.foldr chain (unary inner)) n left := rfl
      _ = (unary inner >>= joinedBy inner tighter) >>= fun left =>
            bounded fun n => joined tier (tighter.foldr chain (unary inner)) n left := by
          conv_lhs => arg 1; rw [ih]
      _ = unary inner >>= joinedBy inner (tier :: tighter) := bind_assoc _ _ _

/-- The loop of a tier goes on with one of its operators. -/
lemma joined_cons {line : ℕ} (h : tier kind = some join) :
    joined tier operand (n + 1) left (.token ⟨kind, line⟩ :: items) =
      (operand >>= fun right => joined tier operand n (join left right)) items := by
  have hnext : (next? (.token ⟨kind, line⟩ :: items)).bind tier = some join := h
  rw [joined, peek?_bind, hnext]
  rfl

lemma joined_of_none (h : (next? items).bind tier = none) :
    joined tier operand n left items = .ok (left, items) := by
  cases n with
  | zero => rfl
  | succ n =>
    rw [joined, peek?_bind, h]
    rfl

/-- A loop reads the same with any bound above the number of items. -/
lemma joined_bound (ho : operand.Consumes 1) (hm : items.length < m) (hn : items.length < n) :
    joined tier operand m left items = joined tier operand n left items := by
  induction m generalizing n left items with
  | zero => omega
  | succ m ih =>
    obtain _ | n := n
    · omega
    rcases hjoin : (next? items).bind tier with _ | join
    · rw [joined_of_none hjoin, joined_of_none hjoin]
    · obtain ⟨kind, hkind, hjoin⟩ := Option.bind_eq_some_iff.mp hjoin
      obtain ⟨line, mid, rfl⟩ := next?_eq_some.mp hkind
      rw [joined_cons hjoin, joined_cons hjoin]
      refine state_bind_congr_at fun right rest hright => ?_
      have hlen := ((ho mid).leaves hright).2
      rw [List.length_cons] at hm hn
      exact ih (by omega) (by omega)

/-- After the loop of a tier there is none of its operators, and whatever holds after each of its
operands. -/
lemma joined_stops {P : List Item → Prop} (ho : operand.Consumes 1)
    (hP : ∀ {items a rest}, operand items = .ok (a, rest) → P rest) (hitems : P items)
    (hn : items.length < n) (h : joined tier operand n left items = .ok (e, rest)) :
    (next? rest).bind tier = none ∧ P rest := by
  induction n generalizing left items with
  | zero => omega
  | succ n ih =>
    rcases hjoin : (next? items).bind tier with _ | join
    · rw [joined_of_none hjoin] at h
      cases h
      exact ⟨hjoin, hitems⟩
    · obtain ⟨kind, hkind, hjoin⟩ := Option.bind_eq_some_iff.mp hjoin
      obtain ⟨line, mid, rfl⟩ := next?_eq_some.mp hkind
      rw [joined_cons hjoin] at h
      obtain ⟨right, mid', hright, h⟩ := bind_ok.mp h
      have hlen := ((ho mid).leaves hright).2
      rw [List.length_cons] at hn
      exact ih (hP hright) (by omega) h

lemma foldr_chain_consumes (hi : inner.Consumes) (ts : List Tier) :
    (ts.foldr chain (unary inner)).Consumes 1 := by
  induction ts with
  | nil => exact unary_consumes hi
  | cons tier ts ih => exact chain_consumes ih

/-- After operands of some tiers there is no operator of these tiers. -/
lemma foldr_chain_stops (hi : inner.Consumes) {ts : List Tier}
    (h : ts.foldr chain (unary inner) items = .ok (e, rest)) :
    ∀ tier ∈ ts, (next? rest).bind tier = none := by
  induction ts generalizing items e rest with
  | nil => simp
  | cons tier ts ih =>
    obtain ⟨left, mid, hleft, h⟩ := bind_ok.mp h
    have hstops := joined_stops (foldr_chain_consumes hi ts) ih (ih hleft) (Nat.lt_succ_self _) h
    simpa using hstops

lemma joinedBy_consumes (hi : inner.Consumes) (ts : List Tier) (left : Expr) :
    (joinedBy inner ts left).Consumes 0 := by
  induction ts generalizing left with
  | nil => exact consumes_pure
  | cons tier ts ih =>
    exact (ih left).andThen fun left => .bounded fun n =>
      joined_consumes (foldr_chain_consumes hi ts) (n + 1) left

/-- Where no operator of the tiers comes next, nothing is joined. -/
lemma joinedBy_of_none (h : ∀ tier ∈ ts, (next? items).bind tier = none) :
    joinedBy inner ts left items = .ok (left, items) := by
  induction ts with
  | nil => rfl
  | cons tier ts ih =>
    rw [joinedBy, bind_of_ok (ih fun t ht => h t (List.mem_cons_of_mem _ ht)), bounded_eq,
      joined_of_none (h tier List.mem_cons_self)]

/-- An operator that comes next joins what the tighter tiers make of its right side, and then all
tiers go on. -/
lemma joinedBy_round (hi : inner.Consumes) {looser : List Tier} {line : ℕ}
    (htier : tier kind = some join) (htighter : ∀ t ∈ tighter, t kind = none) :
    joinedBy inner (looser ++ tier :: tighter) left (.token ⟨kind, line⟩ :: items) =
      (tighter.foldr chain (unary inner) >>= fun right =>
        joinedBy inner (looser ++ tier :: tighter) (join left right)) items := by
  induction looser with
  | nil =>
    have hnone : ∀ t ∈ tighter, (next? (.token ⟨kind, line⟩ :: items)).bind t = none := htighter
    rw [List.nil_append, joinedBy, bind_of_ok (joinedBy_of_none hnone), bounded_eq,
      List.length_cons, joined_cons htier]
    refine state_bind_congr_at fun right rest hright => ?_
    have ho := foldr_chain_consumes hi tighter
    have hlen := ((ho items).leaves hright).2
    rw [joinedBy, bind_of_ok (joinedBy_of_none (foldr_chain_stops hi hright)), bounded_eq]
    exact joined_bound ho (by omega) (Nat.lt_succ_self _)
  | cons t looser ih =>
    -- the loop of a looser tier comes after all of this
    have hlater (x y : Reader Expr) (f : Expr → Reader Expr) {xs ys : List Item}
        (h : x xs = y ys) : (x >>= f) xs = (y >>= f) ys := by
      simp only [bind, StateT.bind, h]
    rw [List.cons_append, joinedBy, hlater _ _ _ ih, bind_assoc]
    rfl

/-! ### Precedences -/

lemma operator?_eq_some {k : ℕ} : Descent.operator? kind = some (k, join) ↔
    ∃ j p, k = j + 1 ∧ kind = .punct p ∧ Joins j p join := by
  constructor
  · intro h
    unfold Descent.operator? at h
    split at h <;> cases h
    all_goals exact ⟨_, _, rfl, rfl, by constructor⟩
  · rintro ⟨j, p, rfl, rfl, hj⟩
    cases hj <;> rfl

/-- Tiers that are tighter than all operators of a kind do not have it. -/
lemma tiers_eq_none (h : ∀ k join, Descent.operator? kind = some (k, join) → k ≤ m) :
    ∀ tier ∈ tiers.drop m, tier kind = none := by
  intro tier ht
  obtain ⟨i, hi⟩ := List.mem_iff_getElem?.mp ht
  rw [List.getElem?_drop] at hi
  rcases hjoin : tier kind with _ | join
  · rfl
  · obtain ⟨p, hp, hj⟩ := (tier_eq_some hi).mp hjoin
    have := h _ _ (operator?_eq_some.mpr ⟨_, p, rfl, hp, hj⟩)
    omega

/-- The tier of an operator stands between the looser and the tighter ones. -/
lemma exists_looser {k : ℕ} (h : Descent.operator? kind = some (k, join)) (hm : m ≤ k - 1) :
    ∃ looser tier, tiers.drop m = looser ++ tier :: tiers.drop k ∧ tier kind = some join := by
  obtain ⟨j, p, rfl, rfl, hj⟩ := operator?_eq_some.mp h
  obtain ⟨tier, ht⟩ := exists_tier hj.lt
  refine ⟨(tiers.drop m).take (j - m), tier, ?_, (tier_eq_some ht).mpr ⟨p, rfl, hj⟩⟩
  obtain ⟨hlt, rfl⟩ := List.getElem?_eq_some_iff.mp ht
  have hdrop : tiers.drop j = (tiers.drop m).drop (j - m) := by
    rw [List.drop_drop]
    congr 1
    omega
  rw [← List.drop_eq_getElem_cons hlt, hdrop, List.take_append_drop]

/-- The loops of all tiers of a precedence stop at once where no operator of it, or of a tighter
one, comes next. -/
lemma joinedBy_of_lt {least : ℕ}
    (h : ∀ k join, (next? items).bind Descent.operator? = some (k, join) → k < least) :
    joinedBy inner (tiers.drop (least - 1)) left items = .ok (left, items) := by
  refine joinedBy_of_none ?_
  rcases hnext : next? items with _ | kind
  · exact fun _ _ => rfl
  · rw [hnext] at h
    exact tiers_eq_none fun k join hop => Nat.le_pred_of_lt (h k join hop)

/-- The loops of all tiers of a precedence go on with an operator that binds as tightly. -/
lemma joinedBy_of_le (hi : inner.Consumes) {least k : ℕ} (hnext : next? items = some kind)
    (hop : Descent.operator? kind = some (k, join)) (hk : least ≤ k) :
    joinedBy inner (tiers.drop (least - 1)) left items =
      (advance >>= fun _ => (tiers.drop k).foldr chain inner.unary >>= fun right =>
        joinedBy inner (tiers.drop (least - 1)) (join left right)) items := by
  have htighter : ∀ t ∈ tiers.drop k, t kind = none := tiers_eq_none fun k' join' hop' => by
    rw [hop] at hop'
    cases hop'
    exact Nat.le_refl k
  obtain ⟨looser, tier, hdrop, htier⟩ := exists_looser hop (Nat.sub_le_sub_right hk 1)
  obtain ⟨line, mid, rfl⟩ := next?_eq_some.mp hnext
  rw [hdrop, joinedBy_round hi htier htighter]
  rfl

end Level

namespace Descent

variable {d l : ℕ} {c : Cursor}

/-- A descent that sees no operator of the precedence, or of a tighter one, stays where it is. -/
lemma climb_of_lt {least : ℕ}
    (h : ∀ k join, (next? (c.rest items)).bind operator? = some (k, join) → k < least) :
    climb items (m + 1) least left c = some (.ok left, c) := by
  rw [climb, bind_of_run peek?_run]
  rcases hop : (next? (c.rest items)).bind operator? with _ | ⟨k, join⟩
  · rfl
  · dsimp only
    rw [if_pos (h k join hop)]
    rfl

/-- A descent goes on with an operator that binds tightly enough. -/
lemma climb_of_le {least k : ℕ} (hnext : next? (c.rest items) = some kind)
    (hop : operator? kind = some (k, join)) (hk : least ≤ k) :
    climb items (m + 1) least left c = (advance >>= fun _ => binary items m (k + 1) >>= fun right =>
      climb items m least (join left right)) c := by
  rw [climb, bind_of_run peek?_run, hnext, Option.bind_some, hop]
  dsimp only
  rw [if_neg (Nat.not_lt.mpr hk)]

/-- **Climbing goes by tiers.** After an operand, a descent that meets operators one after the other
does what the loops of their tiers do. -/
lemma climb_follows (hi : inner.Consumes)
    (hunary : ∀ n, Follows items d l n (Descent.unary items) inner.unary) (n least : ℕ)
    (left : Expr) :
    Follows items d l n (fun m => climb items m least left)
      (joinedBy inner (tiers.drop (least - 1)) left) := by
  induction n generalizing least left with
  | zero => exact follows_zero
  | succ n ih =>
    intro c hc
    by_cases hgo : ∃ k join, (next? (c.rest items)).bind operator? = some (k, join) ∧ least ≤ k
    · obtain ⟨k, join, hop, hle⟩ := hgo
      obtain ⟨kind, hnext, hop⟩ := Option.bind_eq_some_iff.mp hop
      -- the right side is what operators that bind tighter join to the next operand
      have hright : Follows items d l n (fun m => Descent.binary items m (k + 1))
          ((tiers.drop k).foldr chain inner.unary) := by
        rw [foldr_chain]
        exact .call (fun m => Descent.binary.eq_2 items (k + 1) m) <|
          (hunary n).bind fun left => ih (k + 1) left
      have hround : FollowsAt items
          (fun m => advance >>= fun _ => Descent.binary items m (k + 1) >>= fun right =>
            climb items m least (join left right))
          (Reader.advance >>= fun _ => (tiers.drop k).foldr chain inner.unary >>= fun right =>
            joinedBy inner (tiers.drop (least - 1)) (join left right)) c :=
        .seen hc hnext (hright.bind fun right => ih least (join left right))
      exact (hround.call fun m => climb_of_le hnext hop hle).congr (fun _ => rfl)
        (joinedBy_of_le hi hnext hop hle)
    · have hstop : ∀ k join, (next? (c.rest items)).bind operator? = some (k, join) → k < least :=
        fun k join hop => Nat.lt_of_not_le fun hle => hgo ⟨k, join, hop, hle⟩
      exact ((followsAt_pure left).call fun m => climb_of_lt hstop).congr (fun _ => rfl)
        (joinedBy_of_lt hstop)

end Descent

end Stencil.Script
