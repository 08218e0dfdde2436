import Mathlib.Data.List.Basic
import Stencil.Proofs.Outcome
import Stencil.Script.Reader

/-!
Successful runs of readers: what each basic reader took from the items and what it left.
-/

namespace Stencil.Script.Reader

variable {α β : Type} {items rest : List Item}

/-- The kind of the first item if that is a token. -/
def next? : List Item → Option TokenKind
  | .token t :: _ => some t.kind
  | _ => none

lemma next?_eq_some {k : TokenKind} :
    next? items = some k ↔ ∃ line rest, items = .token ⟨k, line⟩ :: rest := by
  constructor
  · intro h
    match items, h with
    | .token ⟨_, line⟩ :: rest, rfl => exact ⟨line, rest, rfl⟩
  · rintro ⟨line, rest, rfl⟩
    rfl

/-! ### Runs of composed readers -/

lemma bind_ok {x : Reader α} {f : α → Reader β} {b : β} :
    (x >>= f) items = .ok (b, rest) ↔
      ∃ a mid, x items = .ok (a, mid) ∧ f a mid = .ok (b, rest) :=
  state_bind_ok

/-- A run whose first part is known goes on from where that part stopped. -/
lemma bind_of_ok {x : Reader α} {f : α → Reader β} {a : α} {mid : List Item}
    (h : x items = .ok (a, mid)) : (x >>= f) items = f a mid := by
  simp [bind, StateT.bind, Except.bind, h]

lemma pure_eq {a : α} : (pure a : Reader α) items = .ok (a, items) := rfl

lemma pure_ok {a b : α} : (pure a : Reader α) items = .ok (b, rest) ↔ a = b ∧ items = rest := by
  simp [pure_eq]

lemma get_ok {is : List Item} :
    (get : Reader (List Item)) items = .ok (is, rest) ↔ items = is ∧ items = rest := by
  have hget : (get : Reader (List Item)) items = .ok (items, items) := rfl
  simp [hget]

lemma fail_ok {cause : Cause} {a : α} : ¬ (fail cause : Reader α) items = .ok (a, rest) := by
  simp [fail]

lemma failFound_ok {cause : String → Cause} {a : α} :
    ¬ (failFound cause : Reader α) items = .ok (a, rest) := fail_ok

lemma peek?_eq : peek? items = .ok (next? items, items) := by
  unfold peek? next?
  split <;> simp_all

lemma peek?_ok {k : Option TokenKind} :
    peek? items = .ok (k, rest) ↔ next? items = k ∧ items = rest := by
  simp [peek?_eq]

/-- A kind is seen where a token of it comes first. -/
lemma peek?_some_ok {k : TokenKind} (h : peek? items = .ok (some k, rest)) :
    ∃ line mid, items = .token ⟨k, line⟩ :: mid ∧ rest = items := by
  obtain ⟨hk, rfl⟩ := peek?_ok.mp h
  obtain ⟨line, mid, rfl⟩ := next?_eq_some.mp hk
  exact ⟨line, mid, rfl, rfl⟩

lemma advance_ok {u : Unit} : advance items = .ok (u, rest) ↔ items.tail = rest := by
  have hadvance : advance items = .ok ((), items.tail) := rfl
  simp [hadvance]

lemma peekIs_eq {p : Punct} :
    peekIs p items = .ok (next? items == some (.punct p), items) := by
  rw [peekIs, bind_of_ok peek?_eq]
  rfl

lemma eat_eq {p : Punct} :
    eat p items = if next? items = some (.punct p) then .ok (true, items.tail)
      else .ok (false, items) := by
  rw [eat, bind_of_ok peekIs_eq]
  by_cases h : next? items = some (.punct p)
  · simp only [h, beq_self_eq_true, if_true]
    rfl
  · simp only [h, beq_eq_false_iff_ne.mpr h, if_false]
    rfl

/-! ### Runs that are decided by the first item -/

lemma peek?_bind {f : Option TokenKind → Reader α} :
    (peek? >>= f) items = f (next? items) items := bind_of_ok peek?_eq

lemma advance_bind {f : Unit → Reader α} {i : Item} : (advance >>= f) (i :: rest) = f () rest :=
  rfl

lemma eat_of_eq {p : Punct} {line : ℕ} :
    eat p (.token ⟨.punct p, line⟩ :: rest) = .ok (true, rest) := by
  rw [eat_eq]
  exact if_pos rfl

lemma eat_bind_of_eq {p : Punct} {line : ℕ} {x y : Reader α} :
    (eat p >>= fun b => if b = true then x else y) (.token ⟨.punct p, line⟩ :: rest) = x rest := by
  rw [bind_of_ok eat_of_eq, if_pos rfl]

lemma eat_bind_of_ne {p : Punct} {x y : Reader α} (h : next? items ≠ some (.punct p)) :
    (eat p >>= fun b => if b = true then x else y) items = y items := by
  rw [bind_of_ok (by rw [eat_eq, if_neg h]), if_neg Bool.false_ne_true]

lemma expect_bind {p : Punct} {line : ℕ} {f : Unit → Reader α} :
    (expect p >>= f) (.token ⟨.punct p, line⟩ :: rest) = f () rest := by
  have he : expect p (.token ⟨.punct p, line⟩ :: rest) = .ok ((), rest) := by
    rw [expect, bind_of_ok eat_of_eq]
    rfl
  rw [bind_of_ok he]

lemma bounded_eq {loop : ℕ → Reader α} : bounded loop items = loop (items.length + 1) items := rfl

/-! ### What a successful run took -/

lemma eat_ok {p : Punct} {b : Bool} :
    eat p items = .ok (b, rest) ↔
      (b = true ∧ ∃ line, items = .token ⟨.punct p, line⟩ :: rest) ∨
        (b = false ∧ next? items ≠ some (.punct p) ∧ items = rest) := by
  rw [eat_eq]
  by_cases h : next? items = some (.punct p)
  · obtain ⟨line, mid, rfl⟩ := next?_eq_some.mp h
    simp [next?, eq_comm]
  · have hne : ∀ line, items ≠ .token ⟨.punct p, line⟩ :: rest := fun line heq =>
      h (next?_eq_some.mpr ⟨line, rest, heq⟩)
    simp [h, hne, eq_comm]

/-- A choice made by a punctuation mark. -/
lemma eat_bind_ok {p : Punct} {x y : Reader α} {a : α} :
    (eat p >>= fun b => if b = true then x else y) items = .ok (a, rest) ↔
      (∃ line mid, items = .token ⟨.punct p, line⟩ :: mid ∧ x mid = .ok (a, rest)) ∨
        (next? items ≠ some (.punct p) ∧ y items = .ok (a, rest)) := by
  by_cases h : next? items = some (.punct p)
  · obtain ⟨line, mid, rfl⟩ := next?_eq_some.mp h
    rw [eat_bind_of_eq]
    simp [h, eq_comm]
  · have hne : ∀ line mid, items ≠ .token ⟨.punct p, line⟩ :: mid := fun line mid heq =>
      h (next?_eq_some.mpr ⟨line, mid, heq⟩)
    rw [eat_bind_of_ne h]
    simp [h, hne]

lemma expect_ok {p : Punct} {u : Unit} :
    expect p items = .ok (u, rest) ↔ ∃ line, items = .token ⟨.punct p, line⟩ :: rest := by
  rw [expect, bind_ok]
  constructor
  · rintro ⟨b, mid, he, hr⟩
    rcases eat_ok.mp he with ⟨rfl, line, rfl⟩ | ⟨rfl, hne, rfl⟩
    · exact ⟨line, by rw [(pure_ok.mp hr).2]⟩
    · exact (failFound_ok hr).elim
  · rintro ⟨line, rfl⟩
    exact ⟨true, rest, eat_ok.mpr (.inl ⟨rfl, line, rfl⟩), rfl⟩

lemma bounded_ok {loop : ℕ → Reader α} {a : α} :
    bounded loop items = .ok (a, rest) ↔ loop (items.length + 1) items = .ok (a, rest) := by
  rw [bounded_eq]

lemma runOn_ok {r : Reader α} {a : α} :
    r.runOn items = .ok a ↔ ∃ rest, r items = .ok (a, rest) := by
  unfold runOn
  rcases r items with f | ⟨b, rest⟩
  · simp
  · simp

/-! ### Tokens at the front -/

/-- The items are tokens of the given kinds and then the rest. -/
def Spans (items rest : List Item) (ts : List TokenKind) : Prop :=
  ∃ tokens : List Token, items = tokens.map .token ++ rest ∧ tokens.map Token.kind = ts

lemma spans_nil : Spans items rest [] ↔ items = rest := by
  simp [Spans]

lemma spans_cons {k : TokenKind} {ts : List TokenKind} :
    Spans items rest (k :: ts) ↔
      ∃ line mid, items = .token ⟨k, line⟩ :: mid ∧ Spans mid rest ts := by
  constructor
  · rintro ⟨tokens, rfl, hk⟩
    rcases tokens with _ | ⟨⟨k', line⟩, tokens⟩
    · simp at hk
    · simp only [List.map_cons, List.cons.injEq] at hk
      obtain ⟨rfl, hk⟩ := hk
      exact ⟨line, _, rfl, tokens, rfl, hk⟩
  · rintro ⟨line, mid, rfl, tokens, rfl, rfl⟩
    exact ⟨⟨k, line⟩ :: tokens, rfl, rfl⟩

lemma spans_append {us vs : List TokenKind} :
    Spans items rest (us ++ vs) ↔ ∃ mid, Spans items mid us ∧ Spans mid rest vs := by
  induction us generalizing items with
  | nil => simp [spans_nil]
  | cons k us ih =>
    simp only [List.cons_append, spans_cons, ih]
    constructor
    · rintro ⟨line, mid, rfl, mid', h1, h2⟩
      exact ⟨mid', ⟨line, mid, rfl, h1⟩, h2⟩
    · rintro ⟨mid', ⟨line, mid, rfl, h1⟩, h2⟩
      exact ⟨line, mid, rfl, mid', h1, h2⟩

/-- A single token. -/
lemma spans_singleton {k : TokenKind} :
    Spans items rest [k] ↔ ∃ line, items = .token ⟨k, line⟩ :: rest := by
  simp [spans_cons, spans_nil]

lemma Spans.length_eq {ts : List TokenKind} (h : Spans items rest ts) :
    items.length = ts.length + rest.length := by
  obtain ⟨tokens, rfl, rfl⟩ := h
  simp

lemma Spans.next?_eq {k : TokenKind} {ts : List TokenKind} (h : Spans items rest (k :: ts)) :
    next? items = some k := by
  obtain ⟨line, mid, rfl, -⟩ := spans_cons.mp h
  rfl

/-- All items are tokens, and nothing is left. -/
lemma spans_tokens {tokens : List Token} {ts : List TokenKind} :
    Spans (tokens.map .token) [] ts ↔ ts = tokens.map Token.kind := by
  constructor
  · rintro ⟨tokens', h, rfl⟩
    rw [List.append_nil] at h
    have hinj : Function.Injective Item.token := fun _ _ => Item.token.inj
    rw [List.map_injective_iff.mpr hinj h]
  · rintro rfl
    exact ⟨tokens, by simp, rfl⟩

end Stencil.Script.Reader
