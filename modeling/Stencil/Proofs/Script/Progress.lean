import Stencil.Proofs.Script.Reading
import Stencil.Script.Stmt.Reader

/-!
What readers leave of their items, and where they fail.

A reader that succeeds leaves an end of its items, and one that reads a phrase or a statement has
taken at least one item. A reader that fails does so at one of its items, or at their end.
-/

namespace Stencil.Script

namespace Reader

variable {α β : Type} {j k : ℕ} {items : List Item}

/-- On these items the reader leaves an end of them with at least `k` items less, or it fails on the
line of one of them. -/
structure ConsumesAt (r : Reader α) (k : ℕ) (items : List Item) : Prop where
  leaves : ∀ {a rest}, r items = .ok (a, rest) → rest <:+ items ∧ rest.length + k ≤ items.length
  blames : ∀ {f}, r items = .error f → ∀ line ∈ f.line?, ∃ i ∈ items, i.line = line

def Consumes (r : Reader α) (k : ℕ) : Prop := ∀ items, r.ConsumesAt k items

/-! ### Basic readers -/

lemma consumes_pure {a : α} : (pure a : Reader α).Consumes 0 := fun items =>
  { leaves := fun h => by
      obtain ⟨-, rfl⟩ := pure_ok.mp h
      exact ⟨List.suffix_refl items, Nat.le_refl _⟩
    blames := fun h => by cases h }

lemma consumes_fail {cause : Cause} : (fail cause : Reader α).Consumes k := fun items =>
  { leaves := fun h => (fail_ok h).elim
    blames := fun h line hline => by
      cases h
      obtain ⟨i, hi, rfl⟩ := Option.map_eq_some_iff.mp hline
      exact ⟨i, List.mem_of_mem_head? hi, rfl⟩ }

/-- Readers that do the same on the items. -/
lemma ConsumesAt.congr {r r' : Reader α} (h : r'.ConsumesAt k items) (heq : r items = r' items) :
    r.ConsumesAt k items where
  leaves hr := h.leaves (heq ▸ hr)
  blames hr := h.blames (heq ▸ hr)

lemma consumes_failFound {cause : String → Cause} : (failFound cause : Reader α).Consumes k := by
  intro items
  have hfail : (fail (cause (describe items)) : Reader α).Consumes k := consumes_fail
  exact (hfail items).congr rfl

lemma ConsumesAt.bind {x : Reader α} {f : α → Reader β} (hx : x.ConsumesAt j items)
    (hf : ∀ a mid, x items = .ok (a, mid) → (f a).ConsumesAt k mid) :
    (x >>= f).ConsumesAt (j + k) items where
  leaves h := by
    obtain ⟨a, mid, ha, hb⟩ := bind_ok.mp h
    obtain ⟨hmid, hlen⟩ := hx.leaves ha
    obtain ⟨hrest, hlen'⟩ := (hf a mid ha).leaves hb
    exact ⟨hrest.trans hmid, by omega⟩
  blames h line hline := by
    rcases state_bind_error.mp h with hx' | ⟨a, mid, ha, hb⟩
    · exact hx.blames hx' line hline
    · obtain ⟨i, hi, rfl⟩ := (hf a mid ha).blames hb line hline
      exact ⟨i, (hx.leaves ha).1.subset hi, rfl⟩

lemma ConsumesAt.loose {r : Reader α} (h : r.ConsumesAt k items) : r.ConsumesAt 0 items where
  leaves hr := ⟨(h.leaves hr).1, Nat.le_of_add_right_le (h.leaves hr).2⟩
  blames := h.blames

lemma Consumes.loose {r : Reader α} (h : r.Consumes k) : r.Consumes 0 := fun items =>
  (h items).loose

/-- What the first of two readers takes is taken by both. -/
lemma Consumes.andThen {x : Reader α} {f : α → Reader β} (hx : x.Consumes k)
    (hf : ∀ a, (f a).Consumes 0) : (x >>= f).Consumes k := fun items =>
  (hx items).bind fun a mid _ => hf a mid

lemma Consumes.map {x : Reader α} {g : α → β} (hx : x.Consumes k) : (g <$> x).Consumes k := by
  rw [map_eq_pure_bind]
  exact hx.andThen fun _ => consumes_pure

lemma Consumes.ite {c : Prop} [Decidable c] {x y : Reader α} (hx : x.Consumes k)
    (hy : y.Consumes k) : (if c then x else y).Consumes k := by
  split_ifs
  · exact hx
  · exact hy

lemma ConsumesAt.get {f : List Item → Reader α} (h : (f items).ConsumesAt k items) :
    (get >>= f).ConsumesAt k items := h.congr rfl

lemma ConsumesAt.peek? {f : Option TokenKind → Reader α}
    (h : (f (next? items)).ConsumesAt k items) : (peek? >>= f).ConsumesAt k items :=
  h.congr peek?_bind

/-- An item that is there is taken. -/
lemma ConsumesAt.advance {f : Unit → Reader α} {i : Item} (h : (f ()).Consumes 0) :
    (advance >>= f).ConsumesAt 1 (i :: items) where
  leaves hr := by
    obtain ⟨hrest, hlen⟩ := (h items).leaves hr
    exact ⟨hrest.trans (List.suffix_cons i items), by rw [List.length_cons]; omega⟩
  blames hr line hline := by
    obtain ⟨i', hi', rfl⟩ := (h items).blames hr line hline
    exact ⟨i', List.mem_cons_of_mem i hi', rfl⟩

/-- A token that was seen is taken. -/
lemma ConsumesAt.seen {f : Unit → Reader α} {kind : TokenKind} (h : (f ()).Consumes 0)
    (hnext : next? items = some kind) : (Reader.advance >>= f).ConsumesAt 1 items := by
  obtain ⟨line, rest, rfl⟩ := next?_eq_some.mp hnext
  exact .advance h

/-- A token that was chosen by its kind is taken. -/
lemma ConsumesAt.chosen {γ : Type} {f : Unit → Reader α} {g : TokenKind → Option γ} {c : γ}
    (h : (f ()).Consumes 0) (hnext : (next? items).bind g = some c) :
    (Reader.advance >>= f).ConsumesAt 1 items := by
  obtain ⟨kind, hkind, -⟩ := Option.bind_eq_some_iff.mp hnext
  exact .seen h hkind

lemma consumes_peekIs {p : Punct} : (peekIs p).Consumes 0 := fun _ => .peek? (consumes_pure _)

lemma consumes_eat {p : Punct} : (eat p).Consumes 0 := fun items =>
  { leaves := fun h => by
      rcases eat_ok.mp h with ⟨-, line, rfl⟩ | ⟨-, -, rfl⟩
      · exact ⟨List.suffix_cons _ _, by rw [List.length_cons]; omega⟩
      · exact ⟨List.suffix_refl items, Nat.le_refl _⟩
    blames := fun h => by
      rw [eat_eq] at h
      split_ifs at h }

/-- A choice made by a punctuation mark, which counts as taken on one of its sides. -/
lemma Consumes.eat {p : Punct} {x y : Reader α} (hx : x.Consumes 0) (hy : y.Consumes 1) :
    (eat p >>= fun b => if b = true then x else y).Consumes 1 := by
  intro items
  by_cases hp : next? items = some (.punct p)
  · obtain ⟨line, rest, rfl⟩ := next?_eq_some.mp hp
    exact (ConsumesAt.advance (f := fun _ => x) hx).congr eat_bind_of_eq
  · exact (hy items).congr (eat_bind_of_ne hp)

lemma consumes_expect {p : Punct} : (expect p).Consumes 1 :=
  .eat consumes_pure consumes_failFound

lemma Consumes.bounded {loop : ℕ → Reader α} (h : ∀ n, (loop (n + 1)).Consumes k) :
    (bounded loop).Consumes k := fun items =>
  .get (h items.length items)

end Reader

open Reader

/-! ### Expressions -/

namespace Level

/-- The two readers of a level take at least one item. -/
structure Consumes (inner : Level) : Prop where
  assignment : inner.assignment.Consumes 1
  operand : inner.operand.Consumes 1

variable {inner : Level}

lemma commas_consumes (hi : inner.Consumes) (n : ℕ) : (commas inner n).Consumes 0 := by
  induction n with
  | zero => exact consumes_pure
  | succ n ih =>
    refine consumes_eat.andThen fun _ => .ite ?_ consumes_pure
    exact hi.assignment.loose.andThen fun e => ih.andThen fun es => consumes_pure

lemma expression_consumes (hi : inner.Consumes) : inner.expression.Consumes 1 := by
  refine hi.assignment.andThen fun first =>
    (Consumes.bounded fun n => commas_consumes hi (n + 1)).andThen fun more => ?_
  cases more with
  | nil => exact consumes_pure
  | cons e es => exact consumes_pure

lemma elements_consumes (hi : inner.Consumes) (close : Punct) (n : ℕ) :
    (elements inner close n).Consumes 0 := by
  induction n with
  | zero => exact consumes_pure
  | succ n ih =>
    refine consumes_eat.andThen fun _ => .ite consumes_pure ?_
    refine hi.assignment.loose.andThen fun e => consumes_eat.andThen fun _ => .ite ?_ ?_
    · exact ih.andThen fun es => consumes_pure
    · exact consumes_expect.loose.andThen fun _ => consumes_pure

lemma entryName_consumes : entryName.Consumes 1 := fun items => by
  refine .peek? ?_
  split
  · exact .seen consumes_pure (by assumption)
  · exact .seen consumes_pure (by assumption)
  · exact .seen consumes_pure (by assumption)
  · exact consumes_failFound items

lemma entries_consumes (hi : inner.Consumes) (n : ℕ) : (entries inner n).Consumes 0 := by
  induction n with
  | zero => exact consumes_pure
  | succ n ih =>
    refine consumes_eat.andThen fun _ => .ite consumes_pure ?_
    refine entryName_consumes.loose.andThen fun name => consumes_expect.loose.andThen fun _ =>
      hi.assignment.loose.andThen fun e => consumes_eat.andThen fun _ => .ite ?_ ?_
    · exact ih.andThen fun es => consumes_pure
    · exact consumes_expect.loose.andThen fun _ => consumes_pure

/-! ### Operands and operators -/

/-- A word that was seen is taken. -/
lemma word_consumes {name : String} {items : List Item} (hnext : next? items = some (.ident name)) :
    (word name).ConsumesAt 1 items := by
  unfold word
  split_ifs
  · exact .seen consumes_pure hnext
  · exact .seen consumes_pure hnext
  · exact .seen consumes_pure hnext
  · exact consumes_fail items
  · exact .seen consumes_pure hnext

lemma primary_consumes (hi : inner.Consumes) : inner.primary.Consumes 1 := fun items => by
  refine .peek? ?_
  split
  · exact .seen consumes_pure (by assumption)
  · exact .seen consumes_pure (by assumption)
  · exact word_consumes (by assumption)
  · -- an expression in parentheses
    exact .seen ((expression_consumes hi).loose.andThen fun e => consumes_expect.loose.andThen
      fun _ => consumes_pure) (by assumption)
  · exact .seen ((Consumes.bounded fun n => elements_consumes hi _ (n + 1)).andThen fun es =>
      consumes_pure) (by assumption)
  · exact .seen ((Consumes.bounded fun n => entries_consumes hi (n + 1)).andThen fun es =>
      consumes_pure) (by assumption)
  · exact consumes_failFound items

lemma steps_consumes (hi : inner.Consumes) (n : ℕ) (e : Expr) : (steps inner n e).Consumes 0 := by
  induction n generalizing e with
  | zero => exact consumes_pure
  | succ n ih =>
    intro items
    refine .peek? ?_
    split
    · -- a member
      refine .loose (.seen (fun items => .peek? ?_) (by assumption))
      split
      · exact .loose (.seen (ih _) (by assumption))
      · exact consumes_failFound items
    · exact .loose (.seen ((expression_consumes hi).loose.andThen fun key =>
        consumes_expect.loose.andThen fun _ => ih _) (by assumption))
    · split
      · exact .loose (.seen ((Consumes.bounded fun n => elements_consumes hi _ (n + 1)).andThen
          fun args => ih _) (by assumption))
      · exact consumes_fail items
    · exact consumes_pure items

lemma stepped_consumes (hi : inner.Consumes) : inner.stepped.Consumes 1 :=
  (primary_consumes hi).andThen fun e => .bounded fun n => steps_consumes hi (n + 1) e

lemma update_consumes (op : UpdateOp) (before : Bool) (target : Expr) :
    (update op before target).Consumes 0 := .ite consumes_pure consumes_fail

lemma unary_consumes (hi : inner.Consumes) : inner.unary.Consumes 1 := fun items => by
  refine .peek? ?_
  split
  · exact .chosen (hi.operand.loose.andThen fun e => consumes_pure) (by assumption)
  · exact .chosen (hi.operand.loose.andThen fun e => update_consumes _ true e) (by assumption)
  · refine (stepped_consumes hi).andThen (fun e items => .peek? ?_) items
    split
    · exact .loose (.chosen (update_consumes _ false e) (by assumption))
    · exact consumes_pure items

lemma joined_consumes {tier : Tier} {operand : Reader Expr} (ho : operand.Consumes 1) (n : ℕ)
    (left : Expr) : (joined tier operand n left).Consumes 0 := by
  induction n generalizing left with
  | zero => exact consumes_pure
  | succ n ih =>
    intro items
    refine .peek? ?_
    split
    · exact .loose (.chosen (ho.loose.andThen fun right => ih _) (by assumption))
    · exact consumes_pure items

lemma chain_consumes {tier : Tier} {operand : Reader Expr} (ho : operand.Consumes 1) :
    (chain tier operand).Consumes 1 :=
  ho.andThen fun left => .bounded fun n => joined_consumes ho (n + 1) left

lemma binary_consumes (hi : inner.Consumes) : inner.binary.Consumes 1 := by
  unfold binary
  induction tiers with
  | nil => exact unary_consumes hi
  | cons tier tiers ih => exact chain_consumes ih

lemma conditional_consumes (hi : inner.Consumes) : inner.conditional.Consumes 1 :=
  (binary_consumes hi).andThen fun _ => consumes_eat.andThen fun _ => .ite
    (hi.assignment.loose.andThen fun _ => consumes_expect.loose.andThen fun _ =>
      hi.assignment.loose.andThen fun _ => consumes_pure) consumes_pure

lemma assigned_consumes (hi : inner.Consumes) : inner.assigned.Consumes 1 := by
  refine (conditional_consumes hi).andThen fun target items => .peek? ?_
  split
  · split_ifs
    · exact .loose (.chosen (hi.assignment.loose.andThen fun e => consumes_pure) (by assumption))
    · exact consumes_fail items
  · exact consumes_pure items

lemma ofDepth_consumes (n : ℕ) : (ofDepth n).Consumes := by
  induction n with
  | zero => exact ⟨consumes_fail, consumes_fail⟩
  | succ n ih => exact ⟨assigned_consumes ih, unary_consumes ih⟩

end Level

/-! ### Statements -/

variable {inner : Level} {stmt : Reader Stmt} {nested : StmtReader} {inLoop : Bool}

lemma condition_consumes (hi : inner.Consumes) : (condition inner).Consumes 1 :=
  consumes_expect.andThen fun _ => (Level.expression_consumes hi).loose.andThen fun _ =>
    consumes_expect.loose.andThen fun _ => consumes_pure

lemma bindingName_consumes : bindingName.Consumes 1 := fun items => by
  refine .peek? ?_
  split
  · split_ifs
    · exact consumes_failFound items
    · exact .seen consumes_pure (by assumption)
  · exact consumes_failFound items

/-- A round of bindings takes a name, whether or not there are more of them. -/
lemma bindings_consumes (hi : inner.Consumes) (n : ℕ) : (bindings inner (n + 1)).Consumes 1 := by
  have hround (n : ℕ) (hn : (bindings inner n).Consumes 0) :
      (bindings inner (n + 1)).Consumes 1 := by
    have hnext (name : String) (init : Option Expr) : Consumes (do
        if ← eat .comma then
          return (name, init) :: (← bindings inner n)
        else
          return [(name, init)]) 0 :=
      consumes_eat.andThen fun _ => .ite (hn.andThen fun bs => consumes_pure) consumes_pure
    refine bindingName_consumes.andThen fun name => consumes_eat.andThen fun _ => .ite ?_ ?_
    · exact hi.assignment.loose.map.andThen (hnext name)
    · exact hnext name none
  induction n with
  | zero => exact hround 0 consumes_pure
  | succ n ih => exact hround (n + 1) ih.loose

lemma declaration_consumes (hi : inner.Consumes) : (declaration inner).Consumes 1 :=
  (Consumes.bounded (bindings_consumes hi)).andThen fun _ => consumes_pure

lemma clause_consumes (hi : inner.Consumes) {mark : Punct} : (clause inner mark).Consumes 0 :=
  consumes_peekIs.andThen fun _ => .ite consumes_pure <|
    (Level.expression_consumes hi).loose.andThen fun _ => consumes_pure

lemma initial_consumes (hi : inner.Consumes) : (initial inner).Consumes 0 := by
  refine consumes_peekIs.andThen fun _ => .ite consumes_pure fun items => .peek? ?_
  split_ifs with hdeclares
  · rcases hnext : next? items with _ | kind
    · rw [hnext] at hdeclares
      cases hdeclares
    · exact .loose (.seen ((declaration_consumes hi).loose.andThen fun s => consumes_pure) hnext)
  · exact (Level.expression_consumes hi).loose.andThen (fun e => consumes_pure) items

lemma blockRest_consumes (hs : stmt.Consumes 1) (n : ℕ) : (blockRest stmt n).Consumes 0 := by
  induction n with
  | zero => exact consumes_pure
  | succ n ih =>
    refine consumes_eat.andThen fun _ => .ite consumes_pure fun items => .get ?_
    split_ifs
    · exact consumes_fail items
    · exact hs.loose.andThen (fun s => ih.andThen fun body => consumes_pure) items

lemma elseBranch_consumes (hs : stmt.Consumes 1) : (elseBranch stmt).Consumes 0 := fun items => by
  refine .peek? ?_
  split_ifs with hword
  · exact .loose (.seen (hs.loose.andThen fun s => consumes_pure) (beq_iff_eq.mp hword))
  · exact consumes_pure items

lemma branchRest_consumes (hi : inner.Consumes) (hs : stmt.Consumes 1) :
    (branchRest inner stmt).Consumes 1 :=
  (condition_consumes hi).andThen fun _ => hs.loose.andThen fun _ =>
    (elseBranch_consumes hs).andThen fun _ => consumes_pure

lemma forRest_consumes (hi : inner.Consumes) (hs : stmt.Consumes 1) :
    (forRest inner stmt).Consumes 1 :=
  consumes_expect.andThen fun _ => (initial_consumes hi).andThen fun _ =>
    consumes_expect.loose.andThen fun _ => (clause_consumes hi).andThen fun _ =>
    consumes_expect.loose.andThen fun _ => (clause_consumes hi).andThen fun _ =>
    consumes_expect.loose.andThen fun _ => hs.loose.andThen fun _ => consumes_pure

lemma whileRest_consumes (hi : inner.Consumes) (hs : stmt.Consumes 1) :
    (whileRest inner stmt).Consumes 1 :=
  (condition_consumes hi).andThen fun _ => hs.loose.andThen fun _ => consumes_pure

lemma ended_consumes (s : Stmt) : (ended s).Consumes 0 :=
  consumes_eat.map.andThen fun _ => consumes_pure

lemma expressionStatement_consumes (hi : inner.Consumes) :
    (expressionStatement inner).Consumes 1 :=
  (Level.expression_consumes hi).andThen fun e => ended_consumes (.expr e)

/-- A word that was seen is taken by the statement that it begins. -/
lemma wordStatement_consumes {word : String} {items : List Item} (hi : inner.Consumes)
    (hs : ∀ b, (nested b).Consumes 1) (hnext : next? items = some (.ident word)) :
    (wordStatement inner nested inLoop word).ConsumesAt 1 items := by
  have hjump (s : Stmt) : (jump word s inLoop).ConsumesAt 1 items := by
    unfold jump
    split_ifs
    · exact .seen (ended_consumes s) hnext
    · exact consumes_fail items
  unfold wordStatement
  split_ifs
  · exact .seen (branchRest_consumes hi (hs inLoop)).loose hnext
  · exact .seen (forRest_consumes hi (hs true)).loose hnext
  · exact .seen (whileRest_consumes hi (hs true)).loose hnext
  · exact .seen ((declaration_consumes hi).loose.andThen fun s => ended_consumes s) hnext
  · exact hjump .leave
  · exact hjump .resume
  · exact consumes_fail items
  · exact expressionStatement_consumes hi items

lemma statementBody_consumes (hi : inner.Consumes) (hs : ∀ b, (nested b).Consumes 1) :
    (statementBody inner nested inLoop).Consumes 1 := fun items => by
  refine .get ?_
  split
  · exact .advance consumes_pure
  · exact .advance consumes_pure
  · exact .advance ((Consumes.bounded fun n => blockRest_consumes (hs inLoop) (n + 1)).andThen
      fun body => consumes_pure)
  · exact wordStatement_consumes hi hs rfl
  · exact expressionStatement_consumes hi _

/-- **Progress of the reader.** A statement that is read takes at least one item, and what is left
is an end of the items. A statement that is not read is at fault on the line of one of them. -/
theorem statement_consumes (n : ℕ) (inLoop : Bool) : (statement n inLoop).Consumes 1 := by
  induction n generalizing inLoop with
  | zero => exact consumes_fail
  | succ n ih => exact statementBody_consumes (Level.ofDepth_consumes n) ih

/-! ### Whole texts -/

lemma statements_consumes (n : ℕ) : (statements n).Consumes 0 := by
  induction n with
  | zero => exact consumes_pure
  | succ n ih =>
    intro items
    refine .get ?_
    split_ifs
    · exact consumes_pure items
    · refine consumes_peekIs.andThen (fun _ => .ite consumes_fail ?_) items
      exact (statement_consumes maxNesting false).loose.andThen fun s => ih.andThen fun body =>
        consumes_pure

lemma completeExpression_consumes : completeExpression.Consumes 1 :=
  (Level.expression_consumes (Level.ofDepth_consumes maxNesting)).andThen fun e items => .get <| by
    split_ifs
    · exact consumes_pure items
    · exact consumes_failFound items

/-- A run on all items is at fault on the line of one of them, or on the first line if there are
none. -/
lemma Reader.Consumes.runOn_error {α : Type} {r : Reader α} {k : ℕ} {items : List Item}
    {fault : Fault} (hr : r.Consumes k) (h : r.runOn items = .error fault) :
    (∃ i ∈ items, i.line = fault.line) ∨ items = [] ∧ fault.line = 1 := by
  unfold runOn at h
  rcases hrun : r items with ⟨cause, _ | line⟩ | ⟨a, rest⟩
  · rw [hrun] at h
    cases h
    rcases hlast : items.getLast? with _ | i
    · exact .inr ⟨List.getLast?_eq_none_iff.mp hlast, rfl⟩
    · exact .inl ⟨i, List.mem_of_getLast? hlast, rfl⟩
  · rw [hrun] at h
    cases h
    exact .inl ((hr items).blames hrun line rfl)
  · rw [hrun] at h
    cases h

end Stencil.Script
