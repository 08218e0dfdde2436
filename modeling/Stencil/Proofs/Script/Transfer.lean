import Stencil.Proofs.Script.Reading
import Stencil.Script.Stmt.Reader

/-!
Readers of expressions look at tokens only.

Two lists of items may differ in their lines and in their outputs. While the tokens at their fronts
agree, a reader that succeeds on one list gives the same answer on the other, and what it leaves of
them agrees again.
-/

namespace Stencil.Script

namespace Reader

variable {α β : Type}

/-! ### Answers on two lists -/

/-- Where `P` holds of two lists and `x` succeeds on the first, `y` gives the same answer on the
second, and `Q` holds of the answer and of what is left. -/
def Transfers (P : List Item → List Item → Prop) (x y : Reader α)
    (Q : α → List Item → List Item → Prop) : Prop :=
  ∀ ⦃items items' rest : List Item⦄ ⦃a : α⦄, P items items' → x items = .ok (a, rest) →
    ∃ rest', y items' = .ok (a, rest') ∧ Q a rest rest'

variable {P P' : List Item → List Item → Prop} {x y : Reader α}
  {Q Q' : α → List Item → List Item → Prop} {T : β → List Item → List Item → Prop}

lemma transfers_pure {a : α} (h : ∀ items items', P items items' → Q a items items') :
    Transfers P (pure a) (pure a) Q := by
  intro items items' rest b hP hx
  obtain ⟨rfl, rfl⟩ := pure_ok.mp hx
  exact ⟨items', rfl, h _ _ hP⟩

lemma transfers_fail {cause : Cause} : Transfers P (fail cause) y Q := fun _ _ _ _ _ h =>
  (fail_ok h).elim

lemma transfers_failFound {cause : String → Cause} : Transfers P (failFound cause) y Q :=
  fun _ _ _ _ _ h => (failFound_ok h).elim

lemma Transfers.bind {f g : α → Reader β} (hx : Transfers P x y Q)
    (hf : ∀ a, Transfers (Q a) (f a) (g a) T) : Transfers P (x >>= f) (y >>= g) T := by
  intro items items' rest b hP h
  obtain ⟨a, mid, ha, hb⟩ := bind_ok.mp h
  obtain ⟨mid', hy, hQ⟩ := hx hP ha
  obtain ⟨rest', hg, hT⟩ := hf a hQ hb
  exact ⟨rest', bind_ok.mpr ⟨a, mid', hy, hg⟩, hT⟩

lemma Transfers.imp (h : Transfers P x y Q) (hP : ∀ items items', P' items items' → P items items')
    (hQ : ∀ a items items', Q a items items' → Q' a items items') : Transfers P' x y Q' := by
  intro items items' rest a hi hx
  obtain ⟨rest', hy, hrest⟩ := h (hP _ _ hi) hx
  exact ⟨rest', hy, hQ _ _ _ hrest⟩

/-! ### Tied lists -/

/-- Tied lists show the same next token, and are still tied when it is dropped. -/
structure Tied (R : List Item → List Item → Prop) : Prop where
  next : ∀ {items items'}, R items items' → next? items = next? items'
  tail : ∀ {items items'}, R items items' → (next? items).isSome → R items.tail items'.tail

/-- Tied lists that are shorter than the bounds, which are those of two loops. -/
structure Within (R : List Item → List Item → Prop) (n n' : ℕ) (items items' : List Item) :
    Prop where
  tied : R items items'
  left : items.length < n
  right : items'.length < n'

variable {R : List Item → List Item → Prop} {n n' : ℕ} {items items' : List Item}

lemma Within.succ (h : Within R n n' items items') : Within R (n + 1) (n' + 1) items items' :=
  ⟨h.tied, Nat.lt_succ_of_lt h.left, Nat.lt_succ_of_lt h.right⟩

/-- A token is dropped from both lists. -/
lemma Within.tail (hR : Tied R) (h : Within R (n + 1) (n' + 1) items items')
    (hnext : (next? items).isSome) : Within R n n' items.tail items'.tail := by
  obtain ⟨k, hk⟩ := Option.isSome_iff_exists.mp hnext
  obtain ⟨line, mid, rfl⟩ := next?_eq_some.mp hk
  obtain ⟨line', mid', rfl⟩ := next?_eq_some.mp ((hR.next h.tied).symm.trans hk)
  exact ⟨hR.tail h.tied hnext, Nat.succ_lt_succ_iff.mp h.left, Nat.succ_lt_succ_iff.mp h.right⟩

/-- The lists are within the bounds, and show the next token. -/
def Sees (R : List Item → List Item → Prop) (n n' : ℕ) (kind : Option TokenKind)
    (items items' : List Item) : Prop :=
  Within R n n' items items' ∧ next? items = kind

lemma transfers_peek? (hR : Tied R) :
    Transfers (Within R n n') peek? peek? (Sees R n n') := by
  intro items items' rest kind hw h
  obtain ⟨rfl, rfl⟩ := peek?_ok.mp h
  exact ⟨items', peek?_ok.mpr ⟨(hR.next hw.tied).symm, rfl⟩, hw, rfl⟩

lemma transfers_peekIs (hR : Tied R) (p : Punct) :
    Transfers (Within R n n') (peekIs p) (peekIs p) fun _ => Within R n n' :=
  (transfers_peek? hR).bind fun _ => transfers_pure fun _ _ h => h.1

lemma transfers_advance (hR : Tied R) {k : TokenKind} :
    Transfers (Sees R (n + 1) (n' + 1) (some k)) advance advance fun _ => Within R n n' := by
  rintro items items' rest ⟨⟩ ⟨hw, hk⟩ h
  obtain rfl := advance_ok.mp h
  exact ⟨items'.tail, rfl, hw.tail hR (by rw [hk]; rfl)⟩

lemma Sees.of_some {k : TokenKind} (h : Sees R n n' (some k) items items') :
    ∃ m m', n = m + 1 ∧ n' = m' + 1 :=
  ⟨n - 1, n' - 1, by have := h.1.left; omega, by have := h.1.right; omega⟩

/-- What follows a token that was seen. -/
lemma Transfers.advance (hR : Tied R) {k : TokenKind} {f g : Unit → Reader α}
    (h : Transfers (Within R n n') (f ()) (g ()) Q) :
    Transfers (Sees R n n' (some k)) (Reader.advance >>= f) (Reader.advance >>= g) Q := by
  intro items items' rest a hs hx
  obtain ⟨m, m', rfl, rfl⟩ := hs.of_some
  have hshorter : Transfers (Within R m m') (f ()) (g ()) Q :=
    h.imp (fun _ _ hw => hw.succ) fun _ _ _ hQ => hQ
  exact (transfers_advance hR).bind (fun _ => hshorter) hs hx

/-- A choice made by a punctuation mark. After the mark, the lists are shorter. -/
lemma Transfers.eat (hR : Tied R) {p : Punct} {x' y' : Reader α}
    (hx : Transfers (Within R n n') x x' Q)
    (hy : Transfers (Within R (n + 1) (n' + 1)) y y' Q) :
    Transfers (Within R (n + 1) (n' + 1)) (eat p >>= fun b => if b = true then x else y)
      (eat p >>= fun b => if b = true then x' else y') Q := by
  intro items items' rest a hw h
  rcases eat_bind_ok.mp h with ⟨line, mid, rfl, htaken⟩ | ⟨hne, hleft⟩
  · obtain ⟨line', mid', rfl⟩ := next?_eq_some.mp (hR.next hw.tied).symm
    obtain ⟨rest', hx', hQ⟩ := hx (hw.tail hR rfl) htaken
    exact ⟨rest', eat_bind_ok.mpr (.inl ⟨line', mid', rfl, hx'⟩), hQ⟩
  · obtain ⟨rest', hy', hQ⟩ := hy hw hleft
    exact ⟨rest', eat_bind_ok.mpr (.inr ⟨by rwa [← hR.next hw.tied], hy'⟩), hQ⟩

lemma transfers_eat (hR : Tied R) (p : Punct) :
    Transfers (Within R n n') (Reader.eat p) (Reader.eat p) fun _ => Within R n n' := by
  intro items items' rest b hw h
  rw [eat_eq] at h
  rw [eat_eq, ← hR.next hw.tied]
  split_ifs at h ⊢ with hp
  · cases h
    obtain ⟨n, rfl⟩ := Nat.exists_eq_add_one_of_ne_zero (by have := hw.left; omega : n ≠ 0)
    obtain ⟨n', rfl⟩ := Nat.exists_eq_add_one_of_ne_zero (by have := hw.right; omega : n' ≠ 0)
    exact ⟨_, rfl, (hw.tail hR (by rw [hp]; rfl)).succ⟩
  · cases h
    exact ⟨_, rfl, hw⟩

lemma Transfers.choose (hR : Tied R) {p : Punct} {x' y' : Reader α}
    (hx : Transfers (Within R n n') x x' Q) (hy : Transfers (Within R n n') y y' Q) :
    Transfers (Within R n n') (Reader.eat p >>= fun b => if b = true then x else y)
      (Reader.eat p >>= fun b => if b = true then x' else y') Q :=
  (transfers_eat hR p).bind fun b => by
    cases b with
    | false => exact hy
    | true => exact hx

lemma transfers_expect (hR : Tied R) (p : Punct) :
    Transfers (Within R n n') (expect p) (expect p) fun _ => Within R n n' :=
  (transfers_eat hR p).bind fun b => by
    cases b with
    | false => exact transfers_failFound
    | true => exact transfers_pure fun _ _ h => h

/-! ### Readers and loops -/

/-- The reader gives the same answers on tied lists and leaves tied lists, no longer than those it
was given. -/
def Carries (r : Reader α) (R : List Item → List Item → Prop) : Prop :=
  ∀ n n', Transfers (Within R n n') r r fun _ => Within R n n'

/-- Two runs of a loop with bounds that are large enough give the same answers. -/
def CarriesWithin (loop : ℕ → Reader α) (R : List Item → List Item → Prop) : Prop :=
  ∀ n n', Transfers (Within R n n') (loop n) (loop n') fun _ => Within R n n'

/-- A reader that carries a relation gives the same answer on related lists of any lengths. -/
lemma Carries.run {r : Reader α} (h : r.Carries R) {rest : List Item} {a : α}
    (hr : R items items') (hx : r items = .ok (a, rest)) :
    ∃ rest', r items' = .ok (a, rest') ∧ R rest rest' := by
  obtain ⟨rest', hy, hw⟩ := h (items.length + 1) (items'.length + 1)
    ⟨hr, Nat.lt_succ_self _, Nat.lt_succ_self _⟩ hx
  exact ⟨rest', hy, hw.tied⟩

lemma eat_carries (hR : Tied R) (p : Punct) : (Reader.eat p).Carries R := fun _ _ =>
  transfers_eat hR p

lemma expect_carries (hR : Tied R) (p : Punct) : (expect p).Carries R := fun _ _ =>
  transfers_expect hR p

lemma Carries.discard {r : Reader α} (h : r.Carries R) : (discard r).Carries R := by
  intro n n'
  change Transfers _ (r >>= fun _ => pure ()) (r >>= fun _ => pure ()) _
  exact (h n n').bind fun _ => transfers_pure fun _ _ h => h

lemma CarriesWithin.bounded {loop : ℕ → Reader α} (h : CarriesWithin loop R) :
    (bounded loop).Carries R := by
  intro n n' items items' rest a hw hloop
  have hlens : Within R (items.length + 1) (items'.length + 1) items items' :=
    ⟨hw.tied, Nat.lt_succ_self _, Nat.lt_succ_self _⟩
  obtain ⟨rest', hloop', hrest⟩ := h _ _ hlens (bounded_ok.mp hloop)
  refine ⟨rest', bounded_ok.mpr hloop', hrest.tied, ?_, ?_⟩
  · have := hrest.left
    have := hw.left
    omega
  · have := hrest.right
    have := hw.right
    omega

/-- To compare two rounds of a loop, both bounds are taken to be positive. The loop may go on with
another accumulator. -/
lemma carriesWithin_of_succ {σ : Type} {loop : σ → ℕ → Reader α}
    (h : ∀ n n', (∀ s, Transfers (Within R n n') (loop s n) (loop s n') fun _ => Within R n n') →
      ∀ s, Transfers (Within R (n + 1) (n' + 1)) (loop s (n + 1)) (loop s (n' + 1))
        fun _ => Within R (n + 1) (n' + 1)) : ∀ s, CarriesWithin (loop s) R := by
  intro s n
  induction n generalizing s with
  | zero => exact fun n' _ _ _ _ hw => absurd hw.left (Nat.not_lt_zero _)
  | succ n ih =>
    intro n'
    cases n' with
    | zero => exact fun _ _ _ _ hw => absurd hw.right (Nat.not_lt_zero _)
    | succ n' => exact h n n' (fun s => ih s n') s

lemma CarriesWithin.of_succ {loop : ℕ → Reader α}
    (h : ∀ n n', Transfers (Within R n n') (loop n) (loop n') (fun _ => Within R n n') →
      Transfers (Within R (n + 1) (n' + 1)) (loop (n + 1)) (loop (n' + 1))
        fun _ => Within R (n + 1) (n' + 1)) : CarriesWithin loop R :=
  carriesWithin_of_succ (fun n n' ih _ => h n n' (ih ())) ()

end Reader

namespace Level

open Reader

/-! ### Readers of expressions -/

/-- The two readers of a level give the same answers on tied lists. -/
structure Carries (inner : Level) (R : List Item → List Item → Prop) : Prop where
  assignment : inner.assignment.Carries R
  operand : inner.operand.Carries R

variable {inner : Level} {R : List Item → List Item → Prop}

lemma commas_carries (hR : Tied R) (hi : inner.Carries R) : CarriesWithin (commas inner) R := by
  refine .of_succ fun n n' ih => .eat hR ?_ (transfers_pure fun _ _ h => h)
  exact (hi.assignment n n').bind fun e => ih.bind fun es => transfers_pure fun _ _ h => h.succ

lemma expression_carries (hR : Tied R) (hi : inner.Carries R) : inner.expression.Carries R := by
  intro n n'
  refine (hi.assignment n n').bind fun first => ((commas_carries hR hi).bounded n n').bind ?_
  intro more
  cases more with
  | nil => exact transfers_pure fun _ _ h => h
  | cons e es => exact transfers_pure fun _ _ h => h

lemma elements_carries (hR : Tied R) (hi : inner.Carries R) (close : Punct) :
    CarriesWithin (elements inner close) R := by
  refine .of_succ fun n n' ih => .eat hR (transfers_pure fun _ _ h => h.succ) ?_
  refine (hi.assignment _ _).bind fun e => .eat hR ?_ ?_
  · exact ih.bind fun es => transfers_pure fun _ _ h => h.succ
  · exact (transfers_expect hR close).bind fun _ => transfers_pure fun _ _ h => h

lemma entryName_carries (hR : Tied R) : entryName.Carries R := by
  intro n n'
  refine (transfers_peek? hR).bind fun kind => ?_
  split
  · exact .advance hR (transfers_pure fun _ _ h => h)
  · exact .advance hR (transfers_pure fun _ _ h => h)
  · exact .advance hR (transfers_pure fun _ _ h => h)
  · exact transfers_failFound

lemma entries_carries (hR : Tied R) (hi : inner.Carries R) : CarriesWithin (entries inner) R := by
  refine .of_succ fun n n' ih => .eat hR (transfers_pure fun _ _ h => h.succ) ?_
  refine (entryName_carries hR _ _).bind fun name => (transfers_expect hR .colon).bind fun _ => ?_
  refine (hi.assignment _ _).bind fun e => .eat hR ?_ ?_
  · exact ih.bind fun es => transfers_pure fun _ _ h => h.succ
  · exact (transfers_expect hR .closeBrace).bind fun _ => transfers_pure fun _ _ h => h

/-- A word that was seen is read as what it stands for. -/
lemma word_transfers (hR : Tied R) (name : String) (n n' : ℕ) :
    Transfers (Sees R n n' (some (.ident name))) (word name) (word name) fun _ => Within R n n' := by
  unfold word
  split_ifs
  · exact .advance hR (transfers_pure fun _ _ h => h)
  · exact .advance hR (transfers_pure fun _ _ h => h)
  · exact .advance hR (transfers_pure fun _ _ h => h)
  · exact transfers_fail
  · exact .advance hR (transfers_pure fun _ _ h => h)

lemma primary_carries (hR : Tied R) (hi : inner.Carries R) : inner.primary.Carries R := by
  intro n n'
  refine (transfers_peek? hR).bind fun kind => ?_
  split
  · exact .advance hR (transfers_pure fun _ _ h => h)
  · exact .advance hR (transfers_pure fun _ _ h => h)
  · exact word_transfers hR _ n n'
  · -- an expression in parentheses
    exact .advance hR <| (expression_carries hR hi n n').bind fun e =>
      (transfers_expect hR .closeParen).bind fun _ => transfers_pure fun _ _ h => h
  · exact .advance hR <| ((elements_carries hR hi _).bounded n n').bind fun es =>
      transfers_pure fun _ _ h => h
  · exact .advance hR <| ((entries_carries hR hi).bounded n n').bind fun es =>
      transfers_pure fun _ _ h => h
  · exact transfers_failFound

lemma steps_carries (hR : Tied R) (hi : inner.Carries R) :
    ∀ e, CarriesWithin (fun n => steps inner n e) R := by
  refine carriesWithin_of_succ fun n n' ih e => (transfers_peek? hR).bind fun kind => ?_
  have hmore (e : Expr) : Transfers (Within R n n') (steps inner n e) (steps inner n' e)
      fun _ => Within R (n + 1) (n' + 1) := (ih e).imp (fun _ _ h => h) fun _ _ _ h => h.succ
  split
  · -- a member
    refine (transfers_advance hR).bind fun _ => (transfers_peek? hR).bind fun kind => ?_
    split
    · exact .advance hR (hmore _)
    · exact transfers_failFound
  · exact (transfers_advance hR).bind fun _ => (expression_carries hR hi _ _).bind fun key =>
      (transfers_expect hR .closeBracket).bind fun _ => hmore _
  · split
    · exact (transfers_advance hR).bind fun _ => ((elements_carries hR hi _).bounded _ _).bind
        fun args => hmore _
    · exact transfers_fail
  · exact transfers_pure fun _ _ h => h.1

lemma stepped_carries (hR : Tied R) (hi : inner.Carries R) : inner.stepped.Carries R := by
  intro n n'
  exact (primary_carries hR hi n n').bind fun e => (steps_carries hR hi e).bounded n n'

lemma update_transfers (op : UpdateOp) (before : Bool) (target : Expr) (n n' : ℕ) :
    Transfers (Within R n n') (update op before target) (update op before target)
      fun _ => Within R n n' := by
  unfold update
  split_ifs
  · exact transfers_pure fun _ _ h => h
  · exact transfers_fail

/-- An operand with no operator before it, and an update after it if there is one. -/
def updatable (inner : Level) : Reader Expr := do
  let e ← inner.stepped
  match (← peek?).bind updateOp? with
  | some op =>
    advance
    update op false e
  | none => return e

lemma updatable_carries (hR : Tied R) (hi : inner.Carries R) : inner.updatable.Carries R := by
  intro n n'
  refine (stepped_carries hR hi n n').bind fun e => (transfers_peek? hR).bind fun after => ?_
  cases after with
  | none => exact transfers_pure fun _ _ h => h.1
  | some k =>
    dsimp only [Option.bind_some]
    split
    · exact .advance hR (update_transfers _ false e n n')
    · exact transfers_pure fun _ _ h => h.1

lemma unary_carries (hR : Tied R) (hi : inner.Carries R) : inner.unary.Carries R := by
  intro n n'
  refine (transfers_peek? hR).bind fun kind => ?_
  have hupdatable : Transfers (Within R n n') inner.updatable inner.updatable
      fun _ => Within R n n' := updatable_carries hR hi n n'
  cases kind with
  | none => exact hupdatable.imp (fun _ _ h => h.1) fun _ _ _ h => h
  | some k =>
    dsimp only [Option.bind_some]
    split
    · exact .advance hR <| (hi.operand n n').bind fun e => transfers_pure fun _ _ h => h
    · exact .advance hR <| (hi.operand n n').bind fun e => update_transfers _ true e n n'
    · exact hupdatable.imp (fun _ _ h => h.1) fun _ _ _ h => h

lemma joined_carries (hR : Tied R) {tier : Tier} {operand : Reader Expr}
    (ho : operand.Carries R) :
    ∀ left, CarriesWithin (fun n => joined tier operand n left) R := by
  refine carriesWithin_of_succ fun n n' ih left => (transfers_peek? hR).bind fun kind => ?_
  cases kind with
  | none => exact transfers_pure fun _ _ h => h.1
  | some k =>
    dsimp only [Option.bind_some]
    rcases tier k with _ | join
    · exact transfers_pure fun _ _ h => h.1
    · exact (transfers_advance hR).bind fun _ => (ho n n').bind fun right =>
        (ih (join left right)).imp (fun _ _ h => h) fun _ _ _ h => h.succ

lemma chain_carries (hR : Tied R) {tier : Tier} {operand : Reader Expr}
    (ho : operand.Carries R) : (chain tier operand).Carries R := by
  intro n n'
  exact (ho n n').bind fun left => (joined_carries hR ho left).bounded n n'

lemma binary_carries (hR : Tied R) (hi : inner.Carries R) : inner.binary.Carries R := by
  have hchains (ts : List Tier) : (ts.foldr chain inner.unary).Carries R := by
    induction ts with
    | nil => exact unary_carries hR hi
    | cons tier ts ih => exact chain_carries hR ih
  exact hchains tiers

lemma conditional_carries (hR : Tied R) (hi : inner.Carries R) : inner.conditional.Carries R := by
  intro n n'
  refine (binary_carries hR hi n n').bind fun test => .choose hR ?_ (transfers_pure fun _ _ h => h)
  exact (hi.assignment n n').bind fun yes => (transfers_expect hR .colon).bind fun _ =>
    (hi.assignment n n').bind fun no => transfers_pure fun _ _ h => h

lemma assigned_carries (hR : Tied R) (hi : inner.Carries R) : inner.assigned.Carries R := by
  intro n n'
  refine (conditional_carries hR hi n n').bind fun target => (transfers_peek? hR).bind fun kind => ?_
  cases kind with
  | none => exact transfers_pure fun _ _ h => h.1
  | some k =>
    dsimp only [Option.bind_some]
    rcases assignOp? k with _ | op
    · exact transfers_pure fun _ _ h => h.1
    · dsimp only
      split_ifs
      · exact .advance hR <| (hi.assignment n n').bind fun value => transfers_pure fun _ _ h => h
      · exact transfers_fail

/-- Readers of every depth answer alike on tied lists. -/
theorem ofDepth_carries (hR : Tied R) (n : ℕ) : (ofDepth n).Carries R := by
  induction n with
  | zero => exact ⟨fun _ _ => transfers_fail, fun _ _ => transfers_fail⟩
  | succ n ih => exact ⟨assigned_carries hR ih, unary_carries hR ih⟩

end Level

open Reader

variable {inner : Level} {R : List Item → List Item → Prop}

/-! ### Parts of statements -/

lemma condition_carries (hR : Tied R) (hi : inner.Carries R) : (condition inner).Carries R := by
  intro n n'
  exact (transfers_expect hR .openParen).bind fun _ =>
    (Level.expression_carries hR hi n n').bind fun test =>
    (transfers_expect hR .closeParen).bind fun _ => transfers_pure fun _ _ h => h

lemma bindingName_carries (hR : Tied R) : bindingName.Carries R := by
  intro n n'
  refine (transfers_peek? hR).bind fun kind => ?_
  split
  · split_ifs
    · exact transfers_failFound
    · exact .advance hR (transfers_pure fun _ _ h => h)
  · exact transfers_failFound

lemma bindings_carries (hR : Tied R) (hi : inner.Carries R) :
    CarriesWithin (bindings inner) R := by
  refine .of_succ fun n n' ih => (bindingName_carries hR _ _).bind fun name => ?_
  -- what comes after the initializer of a binding
  have hnext (init : Option Expr) : Transfers (Within R (n + 1) (n' + 1))
      (do
        if ← eat .comma then
          return (name, init) :: (← bindings inner n)
        else
          return [(name, init)])
      (do
        if ← eat .comma then
          return (name, init) :: (← bindings inner n')
        else
          return [(name, init)]) fun _ => Within R (n + 1) (n' + 1) :=
    .eat hR (ih.bind fun bs => transfers_pure fun _ _ h => h.succ) (transfers_pure fun _ _ h => h)
  refine .choose hR ?_ (hnext none)
  have hvalue : Transfers (Within R (n + 1) (n' + 1)) (some <$> inner.assignment)
      (some <$> inner.assignment) fun _ => Within R (n + 1) (n' + 1) := by
    rw [map_eq_pure_bind]
    exact (hi.assignment _ _).bind fun e => transfers_pure fun _ _ h => h
  exact hvalue.bind hnext

lemma declaration_carries (hR : Tied R) (hi : inner.Carries R) :
    (declaration inner).Carries R := by
  intro n n'
  exact ((bindings_carries hR hi).bounded n n').bind fun bs => transfers_pure fun _ _ h => h

lemma clause_carries (hR : Tied R) (hi : inner.Carries R) (mark : Punct) :
    (clause inner mark).Carries R := by
  intro n n'
  refine (transfers_peekIs hR mark).bind fun b => ?_
  split_ifs
  · exact transfers_pure fun _ _ h => h
  · exact (Level.expression_carries hR hi n n').bind fun e => transfers_pure fun _ _ h => h

lemma initial_carries (hR : Tied R) (hi : inner.Carries R) : (initial inner).Carries R := by
  intro n n'
  refine (transfers_peekIs hR .semicolon).bind fun b => ?_
  split_ifs
  · exact transfers_pure fun _ _ h => h
  · refine (transfers_peek? hR).bind fun kind => ?_
    have hexpr : Transfers (Sees R n n' kind)
        (do return some (Stmt.expr (← inner.expression)))
        (do return some (Stmt.expr (← inner.expression))) fun _ => Within R n n' :=
      ((Level.expression_carries hR hi n n').imp (fun _ _ h => h.1) fun _ _ _ h => h).bind
        fun e => transfers_pure fun _ _ h => h
    cases kind with
    | none => exact hexpr
    | some k =>
      split_ifs
      · exact .advance hR <| (declaration_carries hR hi n n').bind fun s =>
          transfers_pure fun _ _ h => h
      · exact hexpr

end Stencil.Script
