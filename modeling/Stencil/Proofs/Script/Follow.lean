import Stencil.Proofs.Script.Sound

/-!
What may follow a phrase, and what a phrase begins with.

A reader goes on while the next mark binds at least as tightly as its own operators. So of what
follows a phrase it is enough to know how loosely the next mark binds.
-/

namespace Stencil.Script

open Reader Grammar

/-! ### How loosely a mark binds -/

/-- The place of a mark among those that may follow an operand. -/
def Punct.looseness : Punct → ℕ
  | .dot | .openBracket | .openParen => 0
  | .plusPlus | .minusMinus => 1
  | .star | .slash | .percent => 2
  | .plus | .minus => 3
  | .less | .lessEq | .greater | .greaterEq => 4
  | .eqEq | .eqEqEq | .notEq | .notEqEq => 5
  | .andAnd => 6
  | .orOr => 7
  | .question => 8
  | .assign | .plusEq | .minusEq => 9
  | .comma => 10
  | _ => 11

/-- The items do not begin with a mark that binds tighter than `m`. -/
def Stops (m : ℕ) (rest : List Item) : Prop :=
  ∀ ⦃p : Punct⦄, next? rest = some (.punct p) → m ≤ p.looseness

variable {m n : ℕ} {items rest : List Item} {ts us vs : List TokenKind} {e : Expr}

lemma stops_zero : Stops 0 rest := fun _ _ => Nat.zero_le _

lemma stops_nil : Stops m [] := fun _ h => by cases h

lemma stops_mark {p : Punct} {line : ℕ} (h : m ≤ p.looseness) :
    Stops m (.token ⟨.punct p, line⟩ :: rest) := by
  rintro q hq
  cases hq
  exact h

lemma Stops.mono {m' : ℕ} (h : Stops m rest) (hm : m' ≤ m) : Stops m' rest :=
  fun _ hp => Nat.le_trans hm (h hp)

lemma Stops.next?_ne {p : Punct} (h : Stops m rest) (hp : p.looseness < m) :
    next? rest ≠ some (.punct p) := by
  intro heq
  have := h heq
  omega

/-- A look-up that answers only for marks that bind tighter finds nothing. -/
lemma Stops.bind_eq_none {γ : Type} {f : TokenKind → Option γ} (h : Stops m rest)
    (hf : ∀ ⦃k c⦄, f k = some c → ∃ p, k = .punct p ∧ p.looseness < m) :
    (next? rest).bind f = none := by
  rcases hb : (next? rest).bind f with _ | c
  · rfl
  · obtain ⟨k, hk, hc⟩ := Option.bind_eq_some_iff.mp hb
    obtain ⟨p, rfl, hp⟩ := hf hc
    exact (h.next?_ne hp hk).elim

lemma Grammar.Joins.lt {k : ℕ} {p : Punct} {join : Expr → Expr → Expr} (h : Joins k p join) :
    k < 6 := by
  cases h <;> decide

lemma Grammar.Joins.looseness_eq {k : ℕ} {p : Punct} {join : Expr → Expr → Expr}
    (h : Joins k p join) : p.looseness + k = 7 := by
  cases h <;> rfl

/-! ### How phrases begin -/

/-- The tokens that an operand can begin with. -/
def Opens : TokenKind → Prop
  | .punct p => p ∈ [Punct.openParen, .openBracket, .openBrace]
  | _ => True

/-- The tokens that an expression can begin with. -/
def Begins : TokenKind → Prop
  | .punct p =>
    p ∈ [Punct.openParen, .openBracket, .openBrace, .bang, .plus, .minus, .plusPlus, .minusMinus]
  | _ => True

lemma Opens.begins {k : TokenKind} (h : Opens k) : Begins k := by
  cases k with
  | punct p =>
    simp only [Opens, List.mem_cons, List.not_mem_nil, or_false] at h
    rcases h with rfl | rfl | rfl <;> simp [Begins]
  | _ => trivial

lemma begins_unary (op : UnaryOp) : Begins (.punct op.mark) := by
  cases op <;> simp [Begins, UnaryOp.mark]

lemma begins_update (op : UpdateOp) : Begins (.punct op.mark) := by
  cases op <;> simp [Begins, UpdateOp.mark]

lemma Opens.unaryOp?_eq {k : TokenKind} (h : Opens k) : Level.unaryOp? k = none := by
  rcases hop : Level.unaryOp? k with _ | op
  · rfl
  · obtain rfl := Level.unaryOp?_eq_some.mp hop
    cases op <;> simp [Opens, UnaryOp.mark] at h

lemma Opens.updateOp?_eq {k : TokenKind} (h : Opens k) : Level.updateOp? k = none := by
  rcases hop : Level.updateOp? k with _ | op
  · rfl
  · obtain rfl := Level.updateOp?_eq_some.mp hop
    cases op <;> simp [Opens, UpdateOp.mark] at h

/-- Tokens of which the first is of a certain kind. -/
def StartsWith (P : TokenKind → Prop) (ts : List TokenKind) : Prop := ∃ k us, ts = k :: us ∧ P k

lemma StartsWith.append {P : TokenKind → Prop} (h : StartsWith P ts) : StartsWith P (ts ++ us) := by
  obtain ⟨k, vs, rfl, hk⟩ := h
  exact ⟨k, vs ++ us, rfl, hk⟩

lemma StartsWith.mono {P Q : TokenKind → Prop} (h : StartsWith P ts) (hpq : ∀ ⦃k⦄, P k → Q k) :
    StartsWith Q ts := by
  obtain ⟨k, vs, rfl, hk⟩ := h
  exact ⟨k, vs, rfl, hpq hk⟩

lemma StartsWith.next? {P : TokenKind → Prop} (h : StartsWith P ts) (hspan : Spans items rest ts) :
    ∃ k, Reader.next? items = some k ∧ P k := by
  obtain ⟨k, vs, rfl, hk⟩ := h
  exact ⟨k, hspan.next?_eq, hk⟩

/-- What begins with a token of a certain kind does not begin with a mark of another kind. -/
lemma StartsWith.next?_ne {P : TokenKind → Prop} {p : Punct} (h : StartsWith P ts)
    (hp : ¬ P (.punct p)) (hspan : Spans items rest ts) :
    Reader.next? items ≠ some (.punct p) := by
  obtain ⟨k, hk, hpk⟩ := h.next? hspan
  rw [hk]
  rintro ⟨⟩
  exact hp hpk

/-- What the first token of a phrase satisfies. -/
def Grammar.Phrase.First : Phrase → TokenKind → Prop
  | .stepped | .primary => Opens
  | _ => Begins

lemma Grammar.Derives.startsWith {p : Phrase} (h : Derives n p ts e) : StartsWith p.First ts := by
  induction h with
  | single _ ih | unassigned _ ih | unconditional _ ih | tighter _ _ ih | unjoined _ ih
  | operand _ ih | unstepped _ ih => exact ih
  | sequence _ _ _ ih _ | assign _ _ _ _ ih _ | joined _ _ _ ih _ | member _ _ ih =>
    exact ih.append
  | conditional _ _ _ ih _ _ | index _ _ ih _ | call _ _ _ ih _ => exact ih.append.append
  | updateAfter _ _ _ ih => exact ih.append.mono fun _ => Opens.begins
  | bare _ ih => exact ih.mono fun _ => Opens.begins
  | prefixed op _ _ => exact ⟨_, _, rfl, begins_unary op⟩
  | updateBefore op _ _ _ => exact ⟨_, _, rfl, begins_update op⟩
  | number _ | text _ | constant _ | ident _ _ => exact ⟨_, _, rfl, trivial⟩
  | group _ _ | array _ _ _ | object _ _ _ _ => exact ⟨_, _, rfl, by simp [Phrase.First, Opens]⟩

end Stencil.Script
