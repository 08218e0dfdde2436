import Stencil.Proofs.Instruction.Generation
import Stencil.Proofs.Script.Division
import Stencil.Proofs.Script.Items
import Stencil.Proofs.Script.Lexing
import Stencil.Proofs.Tag.Insertion

/-!
Code on other lines.

Lines have a place in messages only. Code that is moved to another line is read as before, and so
are instructions whose code was moved.
-/

namespace Stencil.Script

open Token Reader

variable {n line : ℕ} {c : Char} {cs rest : List Char} {tokens : List Token} {source : String}

/-! ### Tokens and expressions -/

lemma closeComment_line {prev : Char} {stop : ℕ} (h : closeComment prev line cs = .ok (rest, stop))
    (line' : ℕ) : ∃ stop', closeComment prev line' cs = .ok (rest, stop') := by
  induction cs generalizing prev line line' with
  | nil => cases h
  | cons c cs ih =>
    rw [closeComment] at h ⊢
    split_ifs at h ⊢ with hclose
    all_goals first
      | exact ih h _
      | (cases h; exact ⟨_, rfl⟩)

lemma next_line {found : TokenKind × List Char} (h : next line c cs = .ok found) (line' : ℕ) :
    next line' c cs = .ok found := by
  unfold next at h ⊢
  split_ifs at h ⊢
  · exact h
  · rcases hf : Decimal.readFloat? (spanNumber ' ' (c :: cs)).1 with _ | f
    · simp [hf] at h
    · simpa [hf] using h
  · rcases hs : string? c cs with _ | ⟨s, rest⟩
    · simp [hs] at h
    · simpa [hs] using h
  · rcases hp : punct? (c :: cs) with _ | ⟨p, rest⟩
    · simp [hp] at h
    · simpa [hp] using h

lemma readWithin_line (h : readWithin n line cs = .ok tokens) (line' : ℕ) :
    ∃ tokens', readWithin n line' cs = .ok tokens' ∧
      tokens'.map Token.kind = tokens.map Token.kind := by
  induction n generalizing line line' cs tokens with
  | zero =>
    cases cs with
    | nil => exact ⟨tokens, h, rfl⟩
    | cons c cs => exact ⟨tokens, h, rfl⟩
  | succ n ih =>
    cases cs with
    | nil => exact ⟨tokens, h, rfl⟩
    | cons c cs =>
      rw [readWithin_cons] at h ⊢
      split_ifs at h ⊢ with hbreak hblank
      · exact ih h _
      · exact ih h _
      · revert h
        split
        · exact fun h => ih h _
        · intro h
          split at h
          · rename_i hclose
            obtain ⟨stop', hclose'⟩ := closeComment_line hclose line'
            simp only [hclose']
            exact ih h _
          · cases h
        · intro h
          obtain ⟨⟨kind, rest⟩, hnext, h⟩ := except_bind_ok.mp h
          obtain ⟨more, hmore, h⟩ := except_bind_ok.mp h
          cases h
          obtain ⟨more', hmore', hkinds⟩ := ih hmore line'
          refine ⟨⟨kind, line'⟩ :: more', ?_, by rw [List.map_cons, List.map_cons, hkinds]⟩
          exact except_bind_ok.mpr ⟨(kind, rest), next_line hnext line',
            except_bind_ok.mpr ⟨more', hmore', rfl⟩⟩

lemma tokenize_line (h : tokenize source line = .ok tokens) (line' : ℕ) :
    ∃ tokens', tokenize source line' = .ok tokens' ∧
      tokens'.map Token.kind = tokens.map Token.kind := readWithin_line h line'

lemma parseExpression_line {e : Expr} (h : parseExpression source line = .ok e) (line' : ℕ) :
    parseExpression source line' = .ok e := by
  obtain ⟨tokens, htokens, h⟩ := except_bind_ok.mp h
  split_ifs at h with hempty
  obtain ⟨tokens', htokens', hkinds⟩ := tokenize_line htokens line'
  have hne : tokens' ≠ [] := by
    rintro rfl
    simp [List.map_eq_nil_iff.mp hkinds.symm] at hempty
  have hderives := derives_of_completeExpression h
  rw [← hkinds] at hderives
  exact parseExpression_of_derives htokens' hne hderives

end Stencil.Script

namespace Stencil

open Script

/-! ### Instructions -/

/-- The same instruction, with its code on whatever lines. -/
inductive Instruction.Alike : Instruction → Instruction → Prop
  | literal {text : String} : Alike (.appendLiteral text) (.appendLiteral text)
  | execute {source : String} {line line' : ℕ} :
      Alike (.execute ⟨source, line⟩) (.execute ⟨source, line'⟩)
  | escaped {source : String} {line line' : ℕ} :
      Alike (.appendEscaped ⟨source, line⟩) (.appendEscaped ⟨source, line'⟩)
  | raw {source : String} {line line' : ℕ} :
      Alike (.appendRaw ⟨source, line⟩) (.appendRaw ⟨source, line'⟩)
  | noop : Alike .noop .noop

lemma Instruction.Alike.symm {i i' : Instruction} (h : i.Alike i') : i'.Alike i := by
  cases h with
  | literal => exact .literal
  | execute => exact .execute
  | escaped => exact .escaped
  | raw => exact .raw
  | noop => exact .noop

namespace Script

variable {line : ℕ} {instructions instructions' : List Instruction} {items items' : List Item}

lemma aligned_tokens {tokens tokens' : List Token}
    (hkinds : tokens'.map Token.kind = tokens.map Token.kind) :
    Aligned (tokens.map .token) (tokens'.map .token) := by
  induction tokens generalizing tokens' with
  | nil =>
    obtain rfl := List.map_eq_nil_iff.mp hkinds
    exact .nil
  | cons t tokens ih =>
    obtain ⟨k, line⟩ := t
    cases tokens' with
    | nil => simp at hkinds
    | cons t' tokens' =>
      obtain ⟨k', line'⟩ := t'
      simp only [List.map_cons, List.cons.injEq] at hkinds
      obtain ⟨rfl, hkinds⟩ := hkinds
      exact .cons .token (ih hkinds)

lemma exists_makes_of_alike {i i' : Instruction} (h : i.Alike i') {next : ℕ}
    (hi : i.Makes line items next) (line' : ℕ) :
    ∃ items' next', i'.Makes line' items' next' ∧ Aligned items items' := by
  cases h with
  | literal =>
    cases hi
    exact ⟨_, _, .literal _, .cons .emit .nil⟩
  | execute =>
    cases hi with
    | execute _ htokens =>
      obtain ⟨tokens', htokens', hkinds⟩ := tokenize_line htokens _
      exact ⟨_, _, .execute _ htokens', aligned_tokens hkinds⟩
  | escaped =>
    cases hi with
    | escaped _ he => exact ⟨_, _, .escaped _ (parseExpression_line he _), .cons .emit .nil⟩
  | raw =>
    cases hi with
    | raw _ he => exact ⟨_, _, .raw _ (parseExpression_line he _), .cons .emit .nil⟩
  | noop =>
    cases hi
    exact ⟨[], _, .noop, .nil⟩

/-- Instructions with their code on other lines make the same items. -/
lemma itemsFrom_alike (h : List.Forall₂ Instruction.Alike instructions instructions')
    (hitems : itemsFrom line instructions = .ok items) (line' : ℕ) :
    ∃ items', itemsFrom line' instructions' = .ok items' ∧ Aligned items items' := by
  induction h generalizing line line' items with
  | nil =>
    cases hitems
    exact ⟨[], rfl, .nil⟩
  | cons halike _ ih =>
    obtain ⟨first, next, more, hi, hmore, rfl⟩ := itemsFrom_cons_ok.mp hitems
    obtain ⟨first', next', hi', hfirst⟩ := exists_makes_of_alike halike hi line'
    obtain ⟨more', hmore', hrest⟩ := ih hmore next'
    exact ⟨_, itemsFrom_of_makes hi' hmore', List.rel_append hfirst hrest⟩

end Script

/-! ### Segments -/

namespace Instruction

variable {rules : Rules} {segments segments' : List Segment}

lemma ofSegment_alike (rules : Rules) {s s' : Segment} (h : s.Alike s') :
    (∃ u, ofSegment rules s = .error u ∧ ofSegment rules s' = .error u) ∨
    ∃ here here', ofSegment rules s = .ok here ∧ ofSegment rules s' = .ok here' ∧
      List.Forall₂ Alike here here' := by
  cases h with
  | literal => exact .inr ⟨_, _, rfl, rfl, .cons .literal .nil⟩
  | @tag marker content line line' =>
    rw [ofSegment, ofSegment, ofTag, ofTag]
    dsimp only
    rcases TagKind.ofMarker? marker with _ | kind
    · exact .inl ⟨_, rfl, rfl⟩
    · dsimp only
      refine .inr ?_
      split_ifs
      · exact ⟨[], [], rfl, rfl, .nil⟩
      · refine ⟨_, _, rfl, rfl, .cons ?_ .nil⟩
        cases kind with
        | statement => exact .execute
        | escaped => exact .escaped
        | raw => exact .raw
        | comment => exact .noop

/-- Segments with their tags on other lines have the same unknown marker, or make the same
instructions. -/
lemma generate_alike (rules : Rules) (h : List.Forall₂ Segment.Alike segments segments') :
    (∃ u, generate rules segments = .error u ∧ generate rules segments' = .error u) ∨
    ∃ is is', generate rules segments = .ok is ∧ generate rules segments' = .ok is' ∧
      List.Forall₂ Alike is is' := by
  induction h with
  | nil => exact .inr ⟨[], [], rfl, rfl, .nil⟩
  | cons hs _ ih =>
    rw [generate_cons, generate_cons]
    rcases ofSegment_alike rules hs with ⟨u, hu, hu'⟩ | ⟨here, here', hhere, hhere', hfirst⟩
    · exact .inl ⟨u, except_bind_error.mpr (.inl hu), except_bind_error.mpr (.inl hu')⟩
    · rcases ih with ⟨u, hu, hu'⟩ | ⟨is, is', his, his', halike⟩
      · exact .inl ⟨u, except_bind_error.mpr (.inr ⟨here, hhere, except_bind_error.mpr (.inl hu)⟩),
          except_bind_error.mpr (.inr ⟨here', hhere', except_bind_error.mpr (.inl hu')⟩)⟩
      · exact .inr ⟨_, _, except_bind_ok.mpr ⟨here, hhere, except_bind_ok.mpr ⟨is, his, rfl⟩⟩,
          except_bind_ok.mpr ⟨here', hhere', except_bind_ok.mpr ⟨is', his', rfl⟩⟩,
          List.rel_append hfirst halike⟩

end Instruction

end Stencil
