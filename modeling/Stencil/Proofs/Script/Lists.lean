import Mathlib.Data.Nat.Init
import Stencil.Proofs.Script.Grammar
import Stencil.Proofs.Script.Reading
import Stencil.Script.Expr.Reader

/-!
Lists up to a closing mark.

Elements and entries are read in the same way, each up to a comma or to the closing mark. So what
holds of the reader of one member is carried to the list here, once for both.
-/

namespace Stencil.Script

open Grammar

namespace Reader

variable {α : Type}

/-- Members up to a closing mark. A comma may follow the last one. -/
def listed (one : Reader α) (close : Punct) : ℕ → Reader (List α)
  | 0 => pure []
  | n + 1 => do
    if ← eat close then
      return []
    else
      let a ← one
      if ← eat .comma then
        return a :: (← listed one close n)
      else
        expect close
        return [a]

end Reader

namespace Level

variable (inner : Level)

lemma elements_eq_listed (close : Punct) (n : ℕ) :
    inner.elements close n = inner.assignment.listed close n := by
  induction n with
  | zero => rfl
  | succ n ih => rw [elements, Reader.listed, ih]

/-- A name and the value after it. -/
def entry : Reader (String × Expr) := do
  let name ← entryName
  Reader.expect .colon
  let e ← inner.assignment
  return (name, e)

lemma entries_eq_listed (n : ℕ) : inner.entries n = inner.entry.listed .closeBrace n := by
  induction n with
  | zero => rfl
  | succ n ih => simp only [entries, Reader.listed, entry, ih, bind_assoc, pure_bind]

end Level

/-! ### Members as phrases -/

lemma listed_nil {us : List TokenKind} : Listed [] us ↔ us = [] := by
  constructor
  · rintro ⟨⟩
    rfl
  · rintro rfl
    exact .none

lemma listed_cons {phrases : List (List TokenKind)} {ts us : List TokenKind} :
    Listed (ts :: phrases) us ↔
      (phrases = [] ∧ us = ts) ∨ ∃ vs, Listed phrases vs ∧ us = ts ++ .punct .comma :: vs := by
  constructor
  · rintro (_ | _ | ⟨_, h⟩)
    · exact .inl ⟨rfl, rfl⟩
    · exact .inr ⟨_, h, rfl⟩
  · rintro (⟨rfl, rfl⟩ | ⟨vs, h, rfl⟩)
    · exact .last us
    · exact .more ts h

namespace Reader

/-! Each `p : π` stands for a member, with its tokens and what they are read as. -/

variable {α π : Type} {one : Reader α} {close : Punct} {phrase : π → List TokenKind}
  {value : π → α} {fuel : ℕ} {items rest : List Item}

/-- What is accepted as a list is one. The bound is large enough, for every round takes a comma. -/
lemma listed_sound {Good : π → Prop} {as : List α}
    (hone : ∀ ⦃items rest a⦄, one items = .ok (a, rest) →
      ∃ p, Good p ∧ value p = a ∧ Spans items rest (phrase p))
    (h : one.listed close fuel items = .ok (as, rest)) (hfuel : items.length < fuel) :
    ∃ (ps : List π) (us : List TokenKind), (∀ p ∈ ps, Good p) ∧ as = ps.map value ∧
      Listed (ps.map phrase) us ∧ Spans items rest (us ++ [.punct close]) := by
  induction fuel generalizing items as with
  | zero => omega
  | succ fuel ih =>
    rw [listed, eat_bind_ok] at h
    rcases h with ⟨line, mid, rfl, h⟩ | ⟨-, h⟩
    · obtain ⟨rfl, rfl⟩ := pure_ok.mp h
      exact ⟨[], [], by simp, rfl, .none, spans_singleton.mpr ⟨line, rfl⟩⟩
    · rw [bind_ok] at h
      obtain ⟨a, mid, ha, h⟩ := h
      obtain ⟨p, hp, rfl, hspan⟩ := hone ha
      rw [eat_bind_ok] at h
      rcases h with ⟨line, mid', rfl, h⟩ | ⟨-, h⟩
      · -- a comma, and then the rest of the list
        simp only [bind_ok, pure_ok] at h
        obtain ⟨as', mid'', has, rfl, rfl⟩ := h
        have hlen := hspan.length_eq
        rw [List.length_cons] at hlen
        obtain ⟨ps, us, hps, rfl, hlist, hspans⟩ := ih has (by omega)
        refine ⟨p :: ps, _, List.forall_mem_cons.mpr ⟨hp, hps⟩, rfl, hlist.more (phrase p), ?_⟩
        rw [List.append_assoc, List.cons_append, spans_append]
        exact ⟨_, hspan, spans_cons.mpr ⟨line, mid', rfl, hspans⟩⟩
      · -- the last member, and the closing mark
        simp only [bind_ok, pure_ok, expect_ok] at h
        obtain ⟨-, mid', ⟨line, rfl⟩, rfl, rfl⟩ := h
        refine ⟨[p], phrase p, by simpa using hp, rfl, .last (phrase p), ?_⟩
        exact spans_append.mpr ⟨_, hspan, spans_singleton.mpr ⟨line, rfl⟩⟩

/-- A list is accepted if each of its members is, up to the comma or the closing mark after it. -/
lemma listed_complete {ps : List π} {us : List TokenKind} (hclose : close ≠ .comma)
    (hone : ∀ p ∈ ps, ∀ ⦃items rest⦄, Spans items rest (phrase p) →
      next? rest = some (.punct .comma) ∨ next? rest = some (.punct close) →
      next? items ≠ some (.punct close) ∧ one items = .ok (value p, rest))
    (hlist : Listed (ps.map phrase) us) (hspan : Spans items rest (us ++ [.punct close]))
    (hfuel : items.length < fuel) :
    one.listed close fuel items = .ok (ps.map value, rest) := by
  induction ps generalizing items us fuel with
  | nil =>
    obtain ⟨fuel, rfl⟩ := Nat.exists_eq_add_one_of_ne_zero (by omega : fuel ≠ 0)
    obtain rfl := listed_nil.mp hlist
    obtain ⟨line, rfl⟩ := spans_singleton.mp hspan
    rw [listed, eat_bind_of_eq]
    rfl
  | cons p ps ih =>
    obtain ⟨fuel, rfl⟩ := Nat.exists_eq_add_one_of_ne_zero (by omega : fuel ≠ 0)
    obtain ⟨hp, hps⟩ := List.forall_mem_cons.mp hone
    rcases listed_cons.mp hlist with ⟨hnil, rfl⟩ | ⟨vs, hlisted, rfl⟩
    · -- the last member, and the closing mark
      obtain rfl := List.map_eq_nil_iff.mp hnil
      obtain ⟨mid, hspan, hmark⟩ := spans_append.mp hspan
      obtain ⟨line, rfl⟩ := spans_singleton.mp hmark
      obtain ⟨hne, hread⟩ := hp hspan (.inr rfl)
      have hcomma : next? (.token ⟨.punct close, line⟩ :: rest) ≠ some (.punct .comma) := by
        simpa [next?] using hclose
      rw [listed, eat_bind_of_ne hne, bind_of_ok hread, eat_bind_of_ne hcomma, expect_bind]
      rfl
    · -- a comma, and then the rest of the list
      rw [List.append_assoc, List.cons_append] at hspan
      obtain ⟨mid, hspan, hcomma⟩ := spans_append.mp hspan
      obtain ⟨line, mid, rfl, hmore⟩ := spans_cons.mp hcomma
      obtain ⟨hne, hread⟩ := hp hspan (.inl rfl)
      have hlen := hspan.length_eq
      rw [List.length_cons] at hlen
      have hrest := ih hps hlisted hmore (by omega : _ < fuel)
      rw [listed, eat_bind_of_ne hne, bind_of_ok hread, eat_bind_of_eq, bind_of_ok hrest]
      rfl

end Reader

end Stencil.Script
