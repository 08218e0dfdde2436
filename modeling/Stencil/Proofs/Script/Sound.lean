import Stencil.Proofs.Script.Lists

/-!
What the readers of expressions accept is a phrase of the grammar, and they take exactly its
tokens.

Every reader of a level is sound when the readers of the next level down are. The levels then
follow one another.
-/

namespace Stencil.Script

open Reader Grammar

/-- Whatever the reader accepts are tokens of which `P` holds. -/
def Reader.Sound (r : Reader Expr) (P : List TokenKind → Expr → Prop) : Prop :=
  ∀ ⦃items rest : List Item⦄ ⦃e : Expr⦄, r items = .ok (e, rest) →
    ∃ ts, Spans items rest ts ∧ P ts e

namespace Level

/-- The two readers of a level accept phrases with at most `n` levels. -/
structure Sound (inner : Level) (n : ℕ) : Prop where
  assignment : inner.assignment.Sound (Derives n .assignment)
  operand : inner.operand.Sound (Derives n .operand)

variable {inner : Level} {n : ℕ} {items rest : List Item}

/-! ### Lists -/

lemma commas_sound (hi : inner.Sound n) {fuel : ℕ} {es : List Expr}
    (h : commas inner fuel items = .ok (es, rest)) :
    ∃ more : List Element, (∀ p ∈ more, Derives n .assignment p.tokens p.value) ∧
      es = more.map (·.value) ∧
      Spans items rest (more.flatMap fun p => .punct .comma :: p.tokens) := by
  induction fuel generalizing items es with
  | zero =>
    obtain ⟨rfl, rfl⟩ := pure_ok.mp h
    exact ⟨[], by simp, rfl, spans_nil.mpr rfl⟩
  | succ fuel ih =>
    rw [commas, eat_bind_ok] at h
    rcases h with ⟨line, mid, rfl, h⟩ | ⟨-, h⟩
    · simp only [bind_ok, pure_ok] at h
      obtain ⟨e, mid', he, es', mid'', hes, rfl, rfl⟩ := h
      obtain ⟨ts, hspan, hd⟩ := hi.assignment he
      obtain ⟨more, hmore, rfl, hspans⟩ := ih hes
      refine ⟨⟨ts, e⟩ :: more, by simpa using ⟨hd, hmore⟩, rfl, ?_⟩
      exact spans_cons.mpr ⟨line, mid, rfl, spans_append.mpr ⟨mid', hspan, hspans⟩⟩
    · obtain ⟨rfl, rfl⟩ := pure_ok.mp h
      exact ⟨[], by simp, rfl, spans_nil.mpr rfl⟩

lemma expression_sound (hi : inner.Sound n) :
    (expression inner).Sound (Derives n .expression) := by
  intro items rest e h
  simp only [expression, bind_ok, bounded_ok] at h
  obtain ⟨first, mid, hfirst, es, mid', hes, h⟩ := h
  obtain ⟨ts, hspan, hd⟩ := hi.assignment hfirst
  obtain ⟨more, hmore, rfl, hspans⟩ := commas_sound hi hes
  cases more with
  | nil =>
    obtain ⟨rfl, rfl⟩ := pure_ok.mp h
    obtain rfl := spans_nil.mp hspans
    exact ⟨ts, hspan, .single hd⟩
  | cons p more =>
    obtain ⟨rfl, rfl⟩ := pure_ok.mp h
    exact ⟨_, spans_append.mpr ⟨mid, hspan, hspans⟩, .sequence hd (by simp) hmore⟩

/-- A list with its closing mark. -/
lemma elements_sound (hi : inner.Sound n) {close : Punct} {fuel : ℕ} {es : List Expr}
    (h : elements inner close fuel items = .ok (es, rest)) (hfuel : items.length < fuel) :
    ∃ (args : List Element) (us : List TokenKind),
      (∀ p ∈ args, Derives n .assignment p.tokens p.value) ∧ es = args.map (·.value) ∧
      Listed (args.map (·.tokens)) us ∧ Spans items rest (us ++ [.punct close]) := by
  rw [elements_eq_listed] at h
  refine listed_sound (fun items rest e he => ?_) h hfuel
  obtain ⟨ts, hspan, hd⟩ := hi.assignment he
  exact ⟨⟨ts, e⟩, hd, rfl, hspan⟩

lemma entryName_ok {name : String} (h : entryName items = .ok (name, rest)) :
    ∃ key line, items = .token ⟨key, line⟩ :: rest ∧ Names key name := by
  rw [entryName, bind_ok] at h
  obtain ⟨kind, mid, hk, h⟩ := h
  split at h
  · obtain ⟨line, mid, rfl, rfl⟩ := peek?_some_ok hk
    obtain ⟨rfl, rfl⟩ := pure_ok.mp h
    exact ⟨_, line, rfl, .word _⟩
  · obtain ⟨line, mid, rfl, rfl⟩ := peek?_some_ok hk
    obtain ⟨rfl, rfl⟩ := pure_ok.mp h
    exact ⟨_, line, rfl, .text _⟩
  · obtain ⟨line, mid, rfl, rfl⟩ := peek?_some_ok hk
    obtain ⟨rfl, rfl⟩ := pure_ok.mp h
    exact ⟨_, line, rfl, .number _⟩
  · exact (failFound_ok h).elim

lemma entry_sound (hi : inner.Sound n) {e : String × Expr} (h : entry inner items = .ok (e, rest)) :
    ∃ p : Entry, (Derives n .assignment p.tokens p.value ∧ Names p.key p.name) ∧
      (p.name, p.value) = e ∧ Spans items rest p.phrase := by
  simp only [entry, bind_ok, expect_ok, pure_ok] at h
  obtain ⟨name, mid, hname, _, mid', ⟨line', rfl⟩, e, mid'', he, rfl, rfl⟩ := h
  obtain ⟨key, line, rfl, hkey⟩ := entryName_ok hname
  obtain ⟨ts, hspan, hd⟩ := hi.assignment he
  exact ⟨⟨⟨ts, e⟩, key, name⟩, ⟨hd, hkey⟩, rfl,
    spans_cons.mpr ⟨line, _, rfl, spans_cons.mpr ⟨line', mid', rfl, hspan⟩⟩⟩

lemma entries_sound (hi : inner.Sound n) {fuel : ℕ} {es : List (String × Expr)}
    (h : entries inner fuel items = .ok (es, rest)) (hfuel : items.length < fuel) :
    ∃ (ps : List Entry) (us : List TokenKind),
      (∀ p ∈ ps, Derives n .assignment p.tokens p.value ∧ Names p.key p.name) ∧
      es = ps.map (fun p => (p.name, p.value)) ∧ Listed (ps.map (·.phrase)) us ∧
      Spans items rest (us ++ [.punct .closeBrace]) := by
  rw [entries_eq_listed] at h
  exact listed_sound (fun _ _ _ he => entry_sound hi he) h hfuel

/-! ### Operands -/

/-- A word stands for a constant or, unless it is reserved, for a variable. -/
lemma word_ok {name : String} {e : Expr} (h : word name items = .ok (e, rest)) :
    items.tail = rest ∧ Derives n .primary [.ident name] e := by
  rw [word] at h
  split_ifs at h with ht hf hn hr
  · obtain ⟨rfl, rfl⟩ := pure_ok.mp h
    exact ⟨rfl, ht ▸ .constant .yes⟩
  · obtain ⟨rfl, rfl⟩ := pure_ok.mp h
    exact ⟨rfl, hf ▸ .constant .no⟩
  · obtain ⟨rfl, rfl⟩ := pure_ok.mp h
    rcases hn with rfl | rfl
    · exact ⟨rfl, .constant .null⟩
    · exact ⟨rfl, .constant .undefined⟩
  · exact (fail_ok h).elim
  · obtain ⟨rfl, rfl⟩ := pure_ok.mp h
    refine ⟨rfl, .ident hr ?_⟩
    rintro v (_ | _ | _ | _) <;> simp_all

lemma primary_sound (hi : inner.Sound n) : (primary inner).Sound (Derives n .primary) := by
  intro items rest e h
  rw [primary, bind_ok] at h
  obtain ⟨kind, mid, hk, h⟩ := h
  split at h
  · obtain ⟨line, mid, rfl, rfl⟩ := peek?_some_ok hk
    obtain ⟨rfl, rfl⟩ := pure_ok.mp h
    exact ⟨_, spans_singleton.mpr ⟨line, rfl⟩, .number _⟩
  · obtain ⟨line, mid, rfl, rfl⟩ := peek?_some_ok hk
    obtain ⟨rfl, rfl⟩ := pure_ok.mp h
    exact ⟨_, spans_singleton.mpr ⟨line, rfl⟩, .text _⟩
  · obtain ⟨line, mid, rfl, rfl⟩ := peek?_some_ok hk
    obtain ⟨rfl, hd⟩ := word_ok h
    exact ⟨_, spans_singleton.mpr ⟨line, rfl⟩, hd⟩
  · -- an expression in parentheses
    obtain ⟨line, mid, rfl, rfl⟩ := peek?_some_ok hk
    simp only [bind_ok, advance_ok, expect_ok, pure_ok] at h
    obtain ⟨-, _, rfl, e, mid', he, -, _, ⟨line', rfl⟩, rfl, rfl⟩ := h
    obtain ⟨ts, hspan, hd⟩ := expression_sound hi he
    refine ⟨_, spans_cons.mpr ⟨line, mid, rfl, spans_append.mpr ⟨_, hspan, ?_⟩⟩, .group hd⟩
    exact spans_singleton.mpr ⟨line', rfl⟩
  · obtain ⟨line, mid, rfl, rfl⟩ := peek?_some_ok hk
    simp only [bind_ok, advance_ok, bounded_ok, pure_ok] at h
    obtain ⟨-, _, rfl, es, mid', hes, rfl, rfl⟩ := h
    obtain ⟨args, us, hargs, rfl, hlist, hspan⟩ := elements_sound hi hes (Nat.lt_succ_self _)
    exact ⟨_, spans_cons.mpr ⟨line, mid, rfl, hspan⟩, .array hargs hlist⟩
  · obtain ⟨line, mid, rfl, rfl⟩ := peek?_some_ok hk
    simp only [bind_ok, advance_ok, bounded_ok, pure_ok] at h
    obtain ⟨-, _, rfl, es, mid', hes, rfl, rfl⟩ := h
    obtain ⟨ps, us, hps, rfl, hlist, hspan⟩ := entries_sound hi hes (Nat.lt_succ_self _)
    exact ⟨_, spans_cons.mpr ⟨line, mid, rfl, hspan⟩,
      .object (fun p hp => (hps p hp).1) (fun p hp => (hps p hp).2) hlist⟩
  · exact (failFound_ok h).elim

/-- Steps extend what stands before them, one at a time. -/
lemma steps_sound (hi : inner.Sound n) {fuel : ℕ} {us : List TokenKind} {e e' : Expr}
    (hd : Derives n .stepped us e) (h : steps inner fuel e items = .ok (e', rest)) :
    ∃ ts, Spans items rest ts ∧ Derives n .stepped (us ++ ts) e' := by
  induction fuel generalizing us e items with
  | zero =>
    obtain ⟨rfl, rfl⟩ := pure_ok.mp h
    exact ⟨[], spans_nil.mpr rfl, by simpa using hd⟩
  | succ fuel ih =>
    rw [steps.eq_def] at h
    dsimp only at h
    rw [bind_ok] at h
    obtain ⟨kind, mid, hk, h⟩ := h
    split at h
    · -- a member
      obtain ⟨line, mid, rfl, rfl⟩ := peek?_some_ok hk
      simp only [bind_ok, advance_ok] at h
      obtain ⟨-, _, rfl, kind, mid', hk', h⟩ := h
      split at h
      · obtain ⟨line', mid', rfl, rfl⟩ := peek?_some_ok hk'
        simp only [bind_ok, advance_ok] at h
        obtain ⟨-, _, rfl, h⟩ := h
        obtain ⟨ts, hspan, hts⟩ := ih (.member _ hd) h
        rw [List.append_assoc] at hts
        exact ⟨_, spans_cons.mpr ⟨line, _, rfl, spans_cons.mpr ⟨line', _, rfl, hspan⟩⟩, hts⟩
      · exact (failFound_ok h).elim
    · -- an index
      obtain ⟨line, mid, rfl, rfl⟩ := peek?_some_ok hk
      simp only [bind_ok, advance_ok, expect_ok] at h
      obtain ⟨-, _, rfl, key, mid', hkey, -, mid'', ⟨line', rfl⟩, h⟩ := h
      obtain ⟨ks, hspan, hks⟩ := expression_sound hi hkey
      obtain ⟨ts, hspans, hts⟩ := ih (.index hd hks) h
      have hbracket : Spans (.token ⟨.punct .openBracket, line⟩ :: mid) mid''
          (.punct .openBracket :: ks ++ [.punct .closeBracket]) :=
        spans_cons.mpr ⟨line, mid, rfl,
          spans_append.mpr ⟨_, hspan, spans_singleton.mpr ⟨line', rfl⟩⟩⟩
      refine ⟨_, spans_append.mpr ⟨mid'', hbracket, hspans⟩, ?_⟩
      simpa [List.append_assoc] using hts
    · -- a call
      obtain ⟨line, mid, rfl, rfl⟩ := peek?_some_ok hk
      split at h
      · simp only [bind_ok, advance_ok, bounded_ok] at h
        obtain ⟨-, _, rfl, es, mid', hes, h⟩ := h
        obtain ⟨args, as, hargs, rfl, hlist, hspan⟩ := elements_sound hi hes (Nat.lt_succ_self _)
        obtain ⟨ts, hspans, hts⟩ := ih (.call hd hargs hlist) h
        have hparen : Spans (.token ⟨.punct .openParen, line⟩ :: mid) mid'
            (.punct .openParen :: as ++ [.punct .closeParen]) :=
          spans_cons.mpr ⟨line, mid, rfl, hspan⟩
        refine ⟨_, spans_append.mpr ⟨mid', hparen, hspans⟩, ?_⟩
        simpa [List.append_assoc] using hts
      · exact (fail_ok h).elim
    · obtain ⟨hk, rfl⟩ := peek?_ok.mp hk
      obtain ⟨rfl, rfl⟩ := pure_ok.mp h
      exact ⟨[], spans_nil.mpr rfl, by simpa using hd⟩

lemma stepped_sound (hi : inner.Sound n) : (stepped inner).Sound (Derives n .stepped) := by
  intro items rest e h
  simp only [stepped, bind_ok, bounded_ok] at h
  obtain ⟨e', mid, hp, h⟩ := h
  obtain ⟨us, hspan, hd⟩ := primary_sound hi hp
  obtain ⟨ts, hspans, hts⟩ := steps_sound hi (.unstepped hd) h
  exact ⟨us ++ ts, spans_append.mpr ⟨mid, hspan, hspans⟩, hts⟩

lemma unaryOp?_eq_some {k : TokenKind} {op : UnaryOp} :
    unaryOp? k = some op ↔ k = .punct op.mark := by
  constructor
  · intro h
    rw [unaryOp?.eq_def] at h
    split at h <;> simp_all [UnaryOp.mark, eq_comm]
  · rintro rfl
    cases op <;> rfl

lemma updateOp?_eq_some {k : TokenKind} {op : UpdateOp} :
    updateOp? k = some op ↔ k = .punct op.mark := by
  constructor
  · intro h
    rw [updateOp?.eq_def] at h
    split at h <;> simp_all [UpdateOp.mark, eq_comm]
  · rintro rfl
    cases op <;> rfl

lemma assignOp?_eq_some {k : TokenKind} {op : AssignOp} :
    assignOp? k = some op ↔ k = .punct op.mark := by
  constructor
  · intro h
    rw [assignOp?.eq_def] at h
    split at h <;> simp_all [AssignOp.mark, eq_comm]
  · rintro rfl
    cases op <;> rfl

/-- A look-up that answers has seen a token. -/
lemma peek?_bind_ok {γ : Type} {kind : Option TokenKind} {f : TokenKind → Option γ} {c : γ}
    (hk : peek? items = .ok (kind, rest)) (hf : kind.bind f = some c) :
    ∃ k line mid, items = .token ⟨k, line⟩ :: mid ∧ f k = some c ∧ rest = items := by
  obtain ⟨k, rfl, hf⟩ := Option.bind_eq_some_iff.mp hf
  obtain ⟨line, mid, rfl, rfl⟩ := peek?_some_ok hk
  exact ⟨k, line, mid, rfl, hf, rfl⟩

lemma update_ok {op : UpdateOp} {before : Bool} {target e : Expr} :
    update op before target items = .ok (e, rest) ↔
      target.isAssignable = true ∧ .update op before target = e ∧ items = rest := by
  rw [update]
  split_ifs with ht
  · simp [pure_ok, ht]
  · simp [fail_ok, ht]

lemma unary_sound (hi : inner.Sound n) : (unary inner).Sound (Derives n .unary) := by
  intro items rest e h
  rw [unary, bind_ok] at h
  obtain ⟨kind, mid, hk, h⟩ := h
  rcases hop : kind.bind unaryOp? with _ | op
  case some =>
    -- an operator that makes a value of its operand
    rw [hop] at h
    obtain ⟨k, line, mid, rfl, hop, rfl⟩ := peek?_bind_ok hk hop
    obtain rfl := unaryOp?_eq_some.mp hop
    simp only [bind_ok, advance_ok, pure_ok] at h
    obtain ⟨-, _, rfl, e', mid', he, rfl, rfl⟩ := h
    obtain ⟨ts, hspan, hd⟩ := hi.operand he
    exact ⟨_, spans_cons.mpr ⟨line, mid, rfl, hspan⟩, .prefixed op hd⟩
  rcases hup : kind.bind updateOp? with _ | op
  case some =>
    -- an update before its target
    rw [hop, hup] at h
    obtain ⟨k, line, mid, rfl, hup, rfl⟩ := peek?_bind_ok hk hup
    obtain rfl := updateOp?_eq_some.mp hup
    simp only [bind_ok, advance_ok, update_ok] at h
    obtain ⟨-, _, rfl, e', mid', he, ha, rfl, rfl⟩ := h
    obtain ⟨ts, hspan, hd⟩ := hi.operand he
    exact ⟨_, spans_cons.mpr ⟨line, mid, rfl, hspan⟩, .updateBefore op hd ha⟩
  rw [hop, hup] at h
  obtain ⟨-, rfl⟩ := peek?_ok.mp hk
  simp only [bind_ok] at h
  obtain ⟨e', mid', he, kind', mid'', hk', h⟩ := h
  obtain ⟨ts, hspan, hd⟩ := stepped_sound hi he
  rcases hup' : kind'.bind updateOp? with _ | op
  · rw [hup'] at h
    obtain ⟨-, rfl⟩ := peek?_ok.mp hk'
    obtain ⟨rfl, rfl⟩ := pure_ok.mp h
    exact ⟨ts, hspan, .bare hd⟩
  · -- an update after its target
    rw [hup'] at h
    obtain ⟨k, line, mid, rfl, hup', rfl⟩ := peek?_bind_ok hk' hup'
    obtain rfl := updateOp?_eq_some.mp hup'
    simp only [bind_ok, advance_ok, update_ok] at h
    obtain ⟨-, _, rfl, ha, rfl, rfl⟩ := h
    refine ⟨_, spans_append.mpr ⟨_, hspan, ?_⟩, .updateAfter op hd ha⟩
    exact spans_singleton.mpr ⟨line, rfl⟩

/-! ### Operators between operands -/

lemma tier_eq_some {k : ℕ} {tier : Tier} (ht : tiers[k]? = some tier) {kind : TokenKind}
    {join : Joiner} : tier kind = some join ↔ ∃ p, kind = .punct p ∧ Joins k p join := by
  constructor
  · intro h
    match k, ht with
    | 0, rfl | 1, rfl | 2, rfl | 3, rfl | 4, rfl | 5, rfl =>
      dsimp only at h
      split at h
      all_goals
        cases h
        try exact ⟨_, rfl, by constructor⟩
  · rintro ⟨p, rfl, hj⟩
    cases hj <;> cases ht <;> rfl

lemma joined_sound {k : ℕ} {tier : Tier} (ht : tiers[k]? = some tier) {operand : Reader Expr}
    (ho : operand.Sound (Derives n (.operators (k + 1)))) {fuel : ℕ} {us : List TokenKind}
    {left e : Expr} (hd : Derives n (.operators k) us left)
    (h : joined tier operand fuel left items = .ok (e, rest)) :
    ∃ ts, Spans items rest ts ∧ Derives n (.operators k) (us ++ ts) e := by
  induction fuel generalizing us left items with
  | zero =>
    obtain ⟨rfl, rfl⟩ := pure_ok.mp h
    exact ⟨[], spans_nil.mpr rfl, by simpa using hd⟩
  | succ fuel ih =>
    rw [joined, bind_ok] at h
    obtain ⟨kind, mid, hk, h⟩ := h
    rcases hj : kind.bind tier with _ | join
    · rw [hj] at h
      obtain ⟨-, rfl⟩ := peek?_ok.mp hk
      obtain ⟨rfl, rfl⟩ := pure_ok.mp h
      exact ⟨[], spans_nil.mpr rfl, by simpa using hd⟩
    · rw [hj] at h
      obtain ⟨k', line, mid, rfl, hj, rfl⟩ := peek?_bind_ok hk hj
      obtain ⟨p, rfl, hjoins⟩ := (tier_eq_some ht).mp hj
      simp only [bind_ok, advance_ok] at h
      obtain ⟨-, _, rfl, right, mid', hr, h⟩ := h
      obtain ⟨vs, hspan, hvs⟩ := ho hr
      obtain ⟨ts, hspans, hts⟩ := ih (.joined hjoins hd hvs) h
      refine ⟨.punct p :: vs ++ ts, ?_, by simpa [List.append_assoc] using hts⟩
      exact spans_cons.mpr ⟨line, mid, rfl, spans_append.mpr ⟨mid', hspan, hspans⟩⟩

lemma chain_sound {k : ℕ} {tier : Tier} (ht : tiers[k]? = some tier) {operand : Reader Expr}
    (ho : operand.Sound (Derives n (.operators (k + 1)))) :
    (chain tier operand).Sound (Derives n (.operators k)) := by
  intro items rest e h
  simp only [chain, bind_ok, bounded_ok] at h
  obtain ⟨left, mid, hl, h⟩ := h
  obtain ⟨us, hspan, hus⟩ := ho hl
  have hk : k < 6 := (List.getElem?_eq_some_iff.mp ht).1
  obtain ⟨ts, hspans, hts⟩ := joined_sound ht ho (.tighter hk hus) h
  exact ⟨us ++ ts, spans_append.mpr ⟨mid, hspan, hspans⟩, hts⟩

lemma exists_tier {k : ℕ} (hk : k < 6) : ∃ tier, tiers[k]? = some tier :=
  ⟨_, List.getElem?_eq_getElem hk⟩

/-- The reader for the operators of a precedence and all tighter ones. -/
def operators (inner : Level) (k : ℕ) : Reader Expr := (tiers.drop k).foldr chain (unary inner)

lemma operators_of_lt {k : ℕ} {tier : Tier} (ht : tiers[k]? = some tier) :
    operators inner k = chain tier (operators inner (k + 1)) := by
  obtain ⟨hk, rfl⟩ := List.getElem?_eq_some_iff.mp ht
  rw [operators, List.drop_eq_getElem_cons hk]
  rfl

lemma operators_sound (hi : inner.Sound n) (k : ℕ) (hk : k ≤ 6) :
    (operators inner k).Sound (Derives n (.operators k)) := by
  induction hk using Nat.decreasingInduction with
  | self =>
    intro items rest e h
    obtain ⟨ts, hspan, hd⟩ := unary_sound hi h
    exact ⟨ts, hspan, .unjoined hd⟩
  | of_succ k hk ih =>
    obtain ⟨tier, ht⟩ := exists_tier hk
    rw [operators_of_lt ht]
    exact chain_sound ht ih

lemma conditional_sound (hi : inner.Sound n) :
    (conditional inner).Sound (Derives n .conditional) := by
  intro items rest e h
  rw [conditional, bind_ok] at h
  obtain ⟨test, mid, ht, h⟩ := h
  obtain ⟨ts, hspan, hts⟩ := operators_sound hi 0 (by omega) ht
  rw [eat_bind_ok] at h
  rcases h with ⟨line, mid', rfl, h⟩ | ⟨-, h⟩
  · simp only [bind_ok, expect_ok, pure_ok] at h
    obtain ⟨yes, mid₁, hyes, -, mid₂, ⟨line', rfl⟩, no, mid₃, hno, rfl, rfl⟩ := h
    obtain ⟨us, hspan₁, hus⟩ := hi.assignment hyes
    obtain ⟨vs, hspan₂, hvs⟩ := hi.assignment hno
    refine ⟨_, ?_, .conditional hts hus hvs⟩
    rw [List.append_assoc, spans_append]
    refine ⟨_, hspan, spans_cons.mpr ⟨line, mid', rfl, spans_append.mpr ⟨_, hspan₁, ?_⟩⟩⟩
    exact spans_cons.mpr ⟨line', mid₂, rfl, hspan₂⟩
  · obtain ⟨rfl, rfl⟩ := pure_ok.mp h
    exact ⟨ts, hspan, .unconditional hts⟩

lemma assigned_sound (hi : inner.Sound n) :
    (assigned inner).Sound (Derives (n + 1) .assignment) := by
  intro items rest e h
  rw [assigned, bind_ok] at h
  obtain ⟨target, mid, ht, h⟩ := h
  obtain ⟨ts, hspan, hts⟩ := conditional_sound hi ht
  rw [bind_ok] at h
  obtain ⟨kind, mid', hk, h⟩ := h
  rcases hop : kind.bind assignOp? with _ | op
  · rw [hop] at h
    obtain ⟨-, rfl⟩ := peek?_ok.mp hk
    obtain ⟨rfl, rfl⟩ := pure_ok.mp h
    exact ⟨ts, hspan, .unassigned hts⟩
  · rw [hop] at h
    obtain ⟨k, line, mid, rfl, hop, rfl⟩ := peek?_bind_ok hk hop
    obtain rfl := assignOp?_eq_some.mp hop
    split_ifs at h with ha
    · simp only [bind_ok, advance_ok, pure_ok] at h
      obtain ⟨-, _, rfl, value, mid', hv, rfl, rfl⟩ := h
      obtain ⟨us, hspan', hus⟩ := hi.assignment hv
      refine ⟨_, spans_append.mpr ⟨_, hspan, ?_⟩, .assign op hts ha hus⟩
      exact spans_cons.mpr ⟨line, mid, rfl, hspan'⟩
    · exact (fail_ok h).elim

/-! ### Nesting -/

/-- **Soundness**: what the readers of a depth accept nests no deeper than that. -/
theorem ofDepth_sound (n : ℕ) : (ofDepth n).Sound n := by
  induction n with
  | zero => exact ⟨fun _ _ _ h => (fail_ok h).elim, fun _ _ _ h => (fail_ok h).elim⟩
  | succ n ih =>
    refine ⟨assigned_sound ih, fun items rest e h => ?_⟩
    obtain ⟨ts, hspan, hd⟩ := unary_sound ih h
    exact ⟨ts, hspan, .operand hd⟩

end Level

end Stencil.Script
