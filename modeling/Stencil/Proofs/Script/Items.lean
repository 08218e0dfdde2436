import Stencil.Proofs.Outcome
import Stencil.Script.Stmt.Reader

/-!
What items are made of instructions.

Each instruction makes its own items, from the line that it begins on, and those of a list are put
together in the order of its instructions.
-/

namespace Stencil

open Script

/-- An instruction that begins on the line makes the items, and what comes after it begins on the
next line. -/
inductive Instruction.Makes (line : ℕ) : Instruction → List Item → ℕ → Prop
  | literal (text : String) : Makes line (.appendLiteral text) [.emit (.literal text) line]
      (line + Text.breaks text.toList)
  | execute (code : Code) {tokens : List Token} : tokenize code.source code.line = .ok tokens →
      Makes line (.execute code) (tokens.map .token) code.line
  | escaped (code : Code) {e : Expr} : parseExpression code.source code.line = .ok e →
      Makes line (.appendEscaped code) [.emit (.escaped e) code.line] code.line
  | raw (code : Code) {e : Expr} : parseExpression code.source code.line = .ok e →
      Makes line (.appendRaw code) [.emit (.raw e) code.line] code.line
  | noop : Makes line .noop [] line

namespace Script

variable {i : Instruction} {rest : List Instruction} {first items more : List Item} {line next : ℕ}

lemma itemsFrom_cons_eq (h : i.Makes line first next) (rest : List Instruction) :
    itemsFrom line (i :: rest) = (do return first ++ (← itemsFrom next rest)) := by
  cases h with
  | literal text => rfl
  | execute _ htokens =>
    rw [itemsFrom, htokens]
    rfl
  | escaped _ he | raw _ he =>
    rw [itemsFrom, he]
    rfl
  | noop =>
    rw [itemsFrom]
    simp only [List.nil_append, bind_pure]

lemma itemsFrom_of_makes (h : i.Makes line first next) (hmore : itemsFrom next rest = .ok more) :
    itemsFrom line (i :: rest) = .ok (first ++ more) := by
  rw [itemsFrom_cons_eq h, hmore]
  rfl

/-- There are items only where the first instruction makes the first of them. -/
lemma itemsFrom_cons_ok : itemsFrom line (i :: rest) = .ok items ↔
    ∃ first next more, i.Makes line first next ∧ itemsFrom next rest = .ok more ∧
      items = first ++ more := by
  constructor
  · intro h
    cases i with
    | appendLiteral text =>
      obtain ⟨more, hmore, h⟩ := except_bind_ok.mp h
      cases h
      exact ⟨_, _, more, .literal text, hmore, rfl⟩
    | execute code =>
      obtain ⟨tokens, htokens, h⟩ := except_bind_ok.mp h
      obtain ⟨more, hmore, h⟩ := except_bind_ok.mp h
      cases h
      exact ⟨_, _, more, .execute code htokens, hmore, rfl⟩
    | appendEscaped code =>
      obtain ⟨e, he, h⟩ := except_bind_ok.mp h
      obtain ⟨more, hmore, h⟩ := except_bind_ok.mp h
      cases h
      exact ⟨_, _, more, .escaped code he, hmore, rfl⟩
    | appendRaw code =>
      obtain ⟨e, he, h⟩ := except_bind_ok.mp h
      obtain ⟨more, hmore, h⟩ := except_bind_ok.mp h
      cases h
      exact ⟨_, _, more, .raw code he, hmore, rfl⟩
    | noop => exact ⟨[], line, items, .noop, h, rfl⟩
  · rintro ⟨first, next, more, hi, hmore, rfl⟩
    exact itemsFrom_of_makes hi hmore

end Script

end Stencil
