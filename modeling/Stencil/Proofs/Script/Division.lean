import Mathlib.Data.List.Forall2
import Stencil.Proofs.Script.Equivalence
import Stencil.Proofs.Script.Outputs
import Stencil.Proofs.Script.Statements
import Stencil.Proofs.Script.Transfer

/-!
Literal text that is cut in two.

A list of items with one text cut is read like the list with the whole text, up to the statement
that the text is in. There it makes a difference only where the text is all that an `if`, an `else`
or a loop governs: these take one item without braces, so that the second part falls behind them.
-/

namespace Stencil.Script

open Reader

/-! ### Texts that are governed alone -/

/-- The mark of an output that is a text. -/
def Output.marks (governed : Bool) : Output → List Bool
  | .literal _ => [governed]
  | .escaped _ | .raw _ => []

mutual

/-- For each text in a statement, whether it is all that an `if`, an `else` or a loop governs. This
is so of the statement itself if it is `governed`. The first clause of a loop has no texts. -/
def Stmt.alone (governed : Bool) : Stmt → List Bool
  | .output o => o.marks governed
  | .block body => aloneAll body
  | .branch _ yes no => yes.alone true ++ aloneOption no
  | .forLoop _ _ _ body => body.alone true
  | .whileLoop _ body => body.alone true
  | .expr _ | .declare _ | .leave | .resume | .empty => []

def Stmt.aloneOption : Option Stmt → List Bool
  | none => []
  | some s => s.alone true

def Stmt.aloneAll : List Stmt → List Bool
  | [] => []
  | s :: rest => s.alone false ++ aloneAll rest

end

def Program.alone (p : Program) : List Bool := Stmt.aloneAll p.body

/-! ### Items with a text cut in two -/

/-- The same item, on whatever lines. -/
inductive Item.Alike : Item → Item → Prop
  | token {k : TokenKind} {line line' : ℕ} : Alike (.token ⟨k, line⟩) (.token ⟨k, line'⟩)
  | emit {o : Output} {line line' : ℕ} : Alike (.emit o line) (.emit o line')

/-- The same items, on whatever lines. -/
def Aligned : List Item → List Item → Prop := List.Forall₂ Item.Alike

/-- The text `l ++ r`, which comes after `n` other texts in the first list, is in two parts in the
second. -/
inductive DividedAt (l r : String) : ℕ → List Item → List Item → Prop
  | here {line line₁ line₂ : ℕ} {items items' : List Item} : Aligned items items' →
      DividedAt l r 0 (.emit (.literal (l ++ r)) line :: items)
        (.emit (.literal l) line₁ :: .emit (.literal r) line₂ :: items')
  | token {n : ℕ} {k : TokenKind} {line line' : ℕ} {items items' : List Item} :
      DividedAt l r n items items' →
      DividedAt l r n (.token ⟨k, line⟩ :: items) (.token ⟨k, line'⟩ :: items')
  | emit {n : ℕ} {o : Output} {line line' : ℕ} {items items' : List Item} :
      DividedAt l r n items items' →
      DividedAt l r (n + (o.marks true).length) (.emit o line :: items) (.emit o line' :: items')

/-- The text that is cut is still to come, or the lists are the same from here on. -/
def Divided (l r : String) : Option ℕ → List Item → List Item → Prop
  | none => Aligned
  | some n => DividedAt l r n

/-- Where the cut is once `k` texts are taken. -/
def pending (σ : Option ℕ) (k : ℕ) : Option ℕ := σ.bind fun n => if n < k then none else some (n - k)

/-- The cut is at none of the texts that are marked. -/
def Free (σ : Option ℕ) (marks : List Bool) : Prop := ∀ n ∈ σ, marks[n]? ≠ some true

variable {l r : String} {σ : Option ℕ} {items items' mid rest : List Item}

lemma pending_zero : pending σ 0 = σ := by
  cases σ <;> rfl

lemma pending_pending (j k : ℕ) : pending (pending σ j) k = pending σ (j + k) := by
  cases σ with
  | none => rfl
  | some n =>
    simp only [pending, Option.bind_some]
    by_cases hj : n < j
    · rw [if_pos hj, if_pos (by omega)]
      rfl
    · rw [if_neg hj, Option.bind_some, Nat.sub_sub]
      exact if_congr (by omega) rfl rfl

lemma free_none (marks : List Bool) : Free none marks := fun _ h => (by cases h)

lemma Free.append {marks more : List Bool} (h : Free σ (marks ++ more)) :
    Free σ marks ∧ Free (pending σ marks.length) more := by
  cases σ with
  | none => exact ⟨free_none marks, free_none more⟩
  | some n =>
    have hn : (marks ++ more)[n]? ≠ some true := h n rfl
    by_cases hlt : n < marks.length
    · rw [List.getElem?_append_left hlt] at hn
      have hpending : pending (some n) marks.length = none := if_pos hlt
      rw [hpending]
      exact ⟨fun _ hm => by cases hm; exact hn, free_none more⟩
    · rw [List.getElem?_append_right (by omega)] at hn
      have hpending : pending (some n) marks.length = some (n - marks.length) := if_neg hlt
      have hnone : marks[n]? = none := List.getElem?_eq_none (by omega)
      rw [hpending]
      exact ⟨fun _ hm => by cases hm; simp [hnone], fun _ hm => by cases hm; exact hn⟩

lemma Item.Alike.symm {i i' : Item} (h : i.Alike i') : i'.Alike i := by
  cases h with
  | token => exact .token
  | emit => exact .emit

lemma Aligned.symm (h : Aligned items items') : Aligned items' items :=
  .flip (h.imp fun _ _ hi => hi.symm)

lemma Divided.token {t : Token} (h : Divided l r σ (.token t :: items) items') :
    ∃ line mid, items' = .token ⟨t.kind, line⟩ :: mid ∧ Divided l r σ items mid := by
  cases σ with
  | none =>
    obtain ⟨_, mid, hi, hrest, rfl⟩ := List.forall₂_cons_left_iff.mp h
    cases hi
    exact ⟨_, mid, rfl, hrest⟩
  | some n =>
    cases h with
    | token hrest => exact ⟨_, _, rfl, hrest⟩

/-- The text that is cut is the next one, or the same output comes first in both lists. -/
lemma Divided.emit {o : Output} {line : ℕ} (h : Divided l r σ (.emit o line :: items) items') :
    (σ = some 0 ∧ o = .literal (l ++ r) ∧ ∃ line₁ line₂ mid,
      items' = .emit (.literal l) line₁ :: .emit (.literal r) line₂ :: mid ∧ Aligned items mid) ∨
    ∃ line' mid, items' = .emit o line' :: mid ∧
      ∀ governed, Divided l r (pending σ (o.marks governed).length) items mid := by
  cases σ with
  | none =>
    obtain ⟨_, mid, hi, hrest, rfl⟩ := List.forall₂_cons_left_iff.mp h
    cases hi
    exact .inr ⟨_, mid, rfl, fun _ => hrest⟩
  | some n =>
    cases h with
    | here hrest => exact .inl ⟨rfl, rfl, _, _, _, rfl, hrest⟩
    | @emit n _ _ _ _ _ hrest =>
      refine .inr ⟨_, _, rfl, fun governed => ?_⟩
      have hpending : pending (some (n + (o.marks true).length)) (o.marks governed).length =
          some n := by cases o <;> simp [pending, Output.marks]
      rwa [hpending]

lemma Divided.nil (h : Divided l r σ [] items') : items' = [] := by
  cases σ with
  | none => exact List.forall₂_nil_left_iff.mp h
  | some n => cases h

lemma divided_tied : Tied (Divided l r σ) := by
  constructor
  · intro items items' h
    match items with
    | [] =>
      rw [h.nil]
    | .token t :: items =>
      obtain ⟨line, mid, rfl, -⟩ := h.token
      rfl
    | .emit o line :: items =>
      rcases h.emit with ⟨-, -, _, _, _, rfl, -⟩ | ⟨_, _, rfl, -⟩ <;> rfl
  · intro items items' h hnext
    obtain ⟨k, hk⟩ := Option.isSome_iff_exists.mp hnext
    obtain ⟨line, mid, rfl⟩ := next?_eq_some.mp hk
    obtain ⟨line', mid', rfl, hmid⟩ := h.token
    exact hmid

/-! ### Reading on with a text cut -/

variable {α β : Type} {marks : α → List Bool} {E : α → α → Prop}

namespace Reader

/-- Where the reader succeeds on the first list and the cut is at none of the texts that are
marked, it succeeds on the second list, with an answer that is related. -/
def FollowsOn (l r : String) (x : Reader α) (marks : α → List Bool) (E : α → α → Prop)
    (σ : Option ℕ) (items items' : List Item) : Prop :=
  ∀ ⦃a : α⦄ ⦃rest : List Item⦄, x items = .ok (a, rest) → Free σ (marks a) →
    ∃ a' rest', x items' = .ok (a', rest') ∧ E a a' ∧
      Divided l r (pending σ (marks a).length) rest rest'

/-- The reader goes on as before after a text was cut. -/
def Follows (l r : String) (x : Reader α) (marks : α → List Bool) (E : α → α → Prop) : Prop :=
  ∀ ⦃σ items items'⦄, Divided l r σ items items' → x.FollowsOn l r marks E σ items items'

/-- The reader does so on items that begin with a token. -/
def FollowsToken (l r : String) (x : Reader α) (marks : α → List Bool) (E : α → α → Prop) : Prop :=
  ∀ ⦃σ t items items'⦄, Divided l r σ (.token t :: items) items' →
    x.FollowsOn l r marks E σ (.token t :: items) items'

lemma Follows.token {x : Reader α} (h : x.Follows l r marks E) : x.FollowsToken l r marks E :=
  fun _ _ _ _ hd => h hd

lemma follows_pure {a : α} (hmarks : marks a = []) (hE : E a a) :
    (pure a : Reader α).Follows l r marks E := by
  intro σ items items' hd b rest h _
  obtain ⟨rfl, rfl⟩ := pure_ok.mp h
  refine ⟨a, items', rfl, hE, ?_⟩
  rwa [hmarks, List.length_nil, pending_zero]

lemma followsOn_fail {cause : Cause} : (fail cause : Reader α).FollowsOn l r marks E σ items items' :=
  fun _ _ h => (fail_ok h).elim

/-- A reader that looks at tokens only may come first. -/
lemma Follows.after {x : Reader β} {f : β → Reader α} (hx : ∀ σ, x.Carries (Divided l r σ))
    (hf : ∀ b, (f b).Follows l r marks E) : (x >>= f).Follows l r marks E := by
  intro σ items items' hd a rest h hfree
  obtain ⟨b, mid, hb, ha⟩ := bind_ok.mp h
  obtain ⟨mid', hb', hmid⟩ := (hx σ).run hd hb
  obtain ⟨a', rest', ha', hE, hrest⟩ := hf b hmid ha hfree
  exact ⟨a', rest', bind_ok.mpr ⟨b, mid', hb', ha'⟩, hE, hrest⟩

lemma Follows.map {x : Reader β} {g : β → α} {marks' : β → List Bool} {E' : β → β → Prop}
    (hx : x.Follows l r marks' E') (hmarks : ∀ b, marks (g b) = marks' b)
    (hE : ∀ b b', E' b b' → E (g b) (g b')) :
    (x >>= fun b => pure (g b)).Follows l r marks E := by
  intro σ items items' hd a rest h hfree
  obtain ⟨b, mid, hb, ha⟩ := bind_ok.mp h
  obtain ⟨rfl, rfl⟩ := pure_ok.mp ha
  rw [hmarks] at hfree ⊢
  obtain ⟨b', rest', hb', hEb, hrest⟩ := hx hd hb hfree
  exact ⟨g b', rest', bind_ok.mpr ⟨b', rest', hb', rfl⟩, hE b b' hEb, hrest⟩

lemma Follows.advance {x : Reader α} (hx : x.Follows l r marks E) :
    (do advance; x : Reader α).FollowsToken l r marks E := by
  intro σ t items items' hd a rest h hfree
  obtain ⟨line, mid, rfl, hmid⟩ := hd.token
  rw [advance_bind] at h
  obtain ⟨a', rest', ha', hE, hrest⟩ := hx hmid h hfree
  exact ⟨a', rest', ha', hE, hrest⟩

end Reader

variable {inner : Level} {stmt : Reader Stmt} {nested : StmtReader} {inLoop governed : Bool}

lemma elseBranch_follows (hs : stmt.Follows l r (Stmt.alone true) Stmt.Equivalent) :
    (elseBranch stmt).Follows l r Stmt.aloneOption Stmt.EquivalentOption := by
  intro σ items items' hd no rest h hfree
  have hnext := divided_tied.next hd
  by_cases helse : next? items = some (.ident "else")
  · obtain ⟨line, mid, rfl⟩ := next?_eq_some.mp helse
    obtain ⟨line', mid', rfl, hmid⟩ := hd.token
    have hread : (do return some (← stmt) : Reader (Option Stmt)) mid = .ok (no, rest) := h
    obtain ⟨s, back, hs', hpure⟩ := bind_ok.mp hread
    obtain ⟨rfl, rfl⟩ := pure_ok.mp hpure
    obtain ⟨s', rest', hs'', hE, hrest⟩ := hs hmid hs' hfree
    exact ⟨some s', rest', elseBranch_else hs'', hE.some, hrest⟩
  · rw [elseBranch_of_ne helse] at h
    cases h
    rw [hnext] at helse
    refine ⟨none, items', elseBranch_of_ne helse stmt, .none, ?_⟩
    rwa [Stmt.aloneOption, List.length_nil, pending_zero]

lemma branchRest_follows (hi : ∀ σ, inner.Carries (Divided l r σ))
    (hs : stmt.Follows l r (Stmt.alone true) Stmt.Equivalent) :
    (branchRest inner stmt).Follows l r (Stmt.alone governed) Stmt.Equivalent := by
  refine .after (fun σ => condition_carries divided_tied (hi σ)) fun test => ?_
  intro σ items items' hd s rest h hfree
  simp only [bind_ok, pure_ok] at h
  obtain ⟨yes, mid, hyes, no, _, hno, rfl, rfl⟩ := h
  obtain ⟨hfyes, hfno⟩ := Free.append hfree
  obtain ⟨yes', mid', hyes', hEyes, hmid⟩ := hs hd hyes hfyes
  obtain ⟨no', rest', hno', hEno, hrest⟩ := elseBranch_follows hs hmid hno hfno
  refine ⟨.branch test yes' no', rest', ?_, hEyes.branch test hEno, ?_⟩
  · rw [bind_of_ok hyes', bind_of_ok hno']
    rfl
  · rw [pending_pending] at hrest
    rwa [Stmt.alone, List.length_append]

lemma forRest_follows (hi : ∀ σ, inner.Carries (Divided l r σ))
    (hs : stmt.Follows l r (Stmt.alone true) Stmt.Equivalent) :
    (forRest inner stmt).Follows l r (Stmt.alone governed) Stmt.Equivalent := by
  have hmark (p : Punct) (σ : Option ℕ) : (expect p).Carries (Divided l r σ) :=
    expect_carries divided_tied p
  have hclause (mark : Punct) (σ : Option ℕ) : (clause inner mark).Carries (Divided l r σ) :=
    clause_carries divided_tied (hi σ) mark
  exact .after (hmark _) fun _ => .after (fun σ => initial_carries divided_tied (hi σ)) fun init =>
    .after (hmark _) fun _ => .after (hclause _) fun test => .after (hmark _) fun _ =>
    .after (hclause _) fun update => .after (hmark _) fun _ =>
      hs.map (fun _ => rfl) fun _ _ hE => hE.forLoop init test update

lemma whileRest_follows (hi : ∀ σ, inner.Carries (Divided l r σ))
    (hs : stmt.Follows l r (Stmt.alone true) Stmt.Equivalent) :
    (whileRest inner stmt).Follows l r (Stmt.alone governed) Stmt.Equivalent :=
  .after (fun σ => condition_carries divided_tied (hi σ)) fun test =>
    hs.map (fun _ => rfl) fun _ _ hE => hE.whileLoop test

lemma ended_follows {s : Stmt} (h : s.alone governed = []) :
    (ended s).Follows l r (Stmt.alone governed) Stmt.Equivalent :=
  .after (fun _ => (eat_carries divided_tied .semicolon).discard) fun _ =>
    follows_pure h (Stmt.Equivalent.refl s)

lemma jump_follows {word : String} {s : Stmt} (h : s.alone governed = []) :
    (jump word s inLoop).FollowsToken l r (Stmt.alone governed) Stmt.Equivalent := by
  unfold jump
  split_ifs
  · exact (ended_follows h).advance
  · exact fun _ _ _ _ _ => followsOn_fail

lemma expressionStatement_follows (hi : ∀ σ, inner.Carries (Divided l r σ)) :
    (expressionStatement inner).Follows l r (Stmt.alone governed) Stmt.Equivalent :=
  .after (fun σ => Level.expression_carries divided_tied (hi σ)) fun _ => ended_follows rfl

lemma wordStatement_follows (hi : ∀ σ, inner.Carries (Divided l r σ))
    (hs : ∀ b, (nested b).Follows l r (Stmt.alone true) Stmt.Equivalent) (word : String) :
    (wordStatement inner nested inLoop word).FollowsToken l r (Stmt.alone governed)
      Stmt.Equivalent := by
  have hdeclaration : (declaration inner >>= ended).Follows l r (Stmt.alone governed)
      Stmt.Equivalent := by
    simp only [declaration, bind_assoc, pure_bind]
    exact .after (fun σ => (bindings_carries divided_tied (hi σ)).bounded) fun _ => ended_follows rfl
  unfold wordStatement
  split_ifs
  · exact (branchRest_follows hi (hs _)).advance
  · exact (forRest_follows hi (hs _)).advance
  · exact (whileRest_follows hi (hs _)).advance
  · exact hdeclaration.advance
  · exact jump_follows rfl
  · exact jump_follows rfl
  · exact fun _ _ _ _ _ => followsOn_fail
  · exact (expressionStatement_follows hi).token

/-! ### Statements in turn -/

/-- The statements of a block were read in turn. -/
lemma runs_of_blockRest {fuel : ℕ} {ss : List Stmt}
    (hs : ∀ {items rest s}, stmt items = .ok (s, rest) → rest.length < items.length)
    (h : blockRest stmt fuel items = .ok (ss, rest)) (hfuel : items.length < fuel) :
    ∃ line, Runs stmt items (.token ⟨.punct .closeBrace, line⟩ :: rest) ss := by
  induction fuel generalizing items ss with
  | zero => omega
  | succ fuel ih =>
    rw [blockRest, eat_bind_ok] at h
    rcases h with ⟨line, mid, rfl, h⟩ | ⟨hbrace, h⟩
    · obtain ⟨rfl, rfl⟩ := pure_ok.mp h
      exact ⟨line, .nil⟩
    · rw [bind_of_ok (get_ok.mpr ⟨rfl, rfl⟩)] at h
      split_ifs at h with hempty
      · exact (fail_ok h).elim
      · simp only [bind_ok, pure_ok] at h
        obtain ⟨s, mid, hfirst, ss, _, hmore, rfl, rfl⟩ := h
        have hlen := hs hfirst
        obtain ⟨line, hruns⟩ := ih hmore (by omega)
        exact ⟨line, .cons (by simpa using hempty) hbrace hfirst hlen hruns⟩

/-- The statements of a program were read in turn. -/
lemma runs_of_statements {fuel : ℕ} {ss : List Stmt}
    (h : statements fuel items = .ok (ss, rest)) (hfuel : items.length < fuel) :
    Runs (statement maxNesting false) items [] ss := by
  induction fuel generalizing items ss with
  | zero => omega
  | succ fuel ih =>
    rw [statements, bind_of_ok (get_ok.mpr ⟨rfl, rfl⟩)] at h
    split_ifs at h with hempty
    · obtain ⟨rfl, rfl⟩ := pure_ok.mp h
      obtain rfl := List.isEmpty_iff.mp hempty
      exact .nil
    · rw [bind_of_ok peekIs_eq] at h
      split_ifs at h with hbrace
      · exact (fail_ok h).elim
      · simp only [bind_ok, pure_ok] at h
        obtain ⟨s, mid, hfirst, ss, _, hmore, rfl, rfl⟩ := h
        have hlen := (took_statement maxNesting hfirst).2
        exact .cons (by simpa using hempty) (by simpa using hbrace) hfirst hlen (ih hmore (by omega))

variable {n fuel : ℕ} {s : Stmt} {ss : List Stmt} {back : List Item}

lemma runs_block (h : bounded (blockRest (statement n inLoop)) items = .ok (ss, rest)) :
    ∃ line, Runs (statement n inLoop) items (.token ⟨.punct .closeBrace, line⟩ :: rest) ss :=
  runs_of_blockRest (fun h => (took_statement n h).2) (bounded_ok.mp h) (Nat.lt_succ_self _)

lemma block_of_runs {line : ℕ}
    (h : Runs (statement n inLoop) items (.token ⟨.punct .closeBrace, line⟩ :: rest) ss) :
    bounded (blockRest (statement n inLoop)) items = .ok (ss, rest) :=
  bounded_ok.mpr (blockRest_of_runs h (Nat.lt_succ_self _))

/-- An output is a statement where any is. -/
lemma statement_emit {o : Output} {line : ℕ}
    (h : statement n inLoop (.emit o line :: items) = .ok (s, rest)) :
    ∃ m, n = m + 1 ∧ s = .output o ∧ rest = items := by
  cases n with
  | zero => exact (fail_ok h).elim
  | succ m =>
    cases h
    exact ⟨m, rfl, rfl, rfl⟩

/-- After a text was cut, the statements are read in turn as before, and one more of them where
that text is read. -/
lemma Runs.follows
    (hs : (statement n inLoop).FollowsToken l r (Stmt.alone false) Stmt.Equivalent)
    (h : Runs (statement n inLoop) items back ss) (hd : Divided l r σ items items')
    (hfree : Free σ (Stmt.aloneAll ss)) :
    ∃ ss' back', Runs (statement n inLoop) items' back' ss' ∧ Stmt.EquivalentAll ss ss' ∧
      Divided l r (pending σ (Stmt.aloneAll ss).length) back back' := by
  induction h generalizing σ items' with
  | nil =>
    refine ⟨[], items', .nil, .refl [], ?_⟩
    rwa [Stmt.aloneAll, List.length_nil, pending_zero]
  | @cons items mid rest s ss hne hbrace hfirst hlen hmore ih =>
    obtain ⟨hfs, hfss⟩ := Free.append hfree
    have hnext := divided_tied.next hd
    -- the statement is read in one piece, and then the others
    have hwhole {s' : Stmt} {mid' : List Item} (hs' : statement n inLoop items' = .ok (s', mid'))
        (hE : s.Equivalent s') (hmid : Divided l r (pending σ (s.alone false).length) mid mid') :
        ∃ ss' back', Runs (statement n inLoop) items' back' ss' ∧
          Stmt.EquivalentAll (s :: ss) ss' ∧
          Divided l r (pending σ (Stmt.aloneAll (s :: ss)).length) rest back' := by
      obtain ⟨ss', back', hruns, hEs, hback⟩ := ih hmid hfss
      have hlen' := (took_statement n hs').2
      have hne' : items' ≠ [] := List.ne_nil_of_length_pos (by omega)
      refine ⟨s' :: ss', back', .cons hne' (hnext ▸ hbrace) hs' hlen' hruns, .cons hE hEs, ?_⟩
      rwa [Stmt.aloneAll, List.length_append, ← pending_pending]
    match items with
    | [] => exact (hne rfl).elim
    | .token t :: items =>
      obtain ⟨s', mid', hs', hE, hmid⟩ := hs hd hfirst hfs
      exact hwhole hs' hE hmid
    | .emit o line :: items =>
      obtain ⟨m, rfl, rfl, rfl⟩ := statement_emit hfirst
      rcases hd.emit with ⟨rfl, rfl, line₁, line₂, mid', rfl, hmid⟩ | ⟨line', mid', rfl, hmid⟩
      · -- the text itself, which is now two statements
        have hrest : Divided l r (pending (some 0) 1) mid mid' := hmid
        obtain ⟨ss', back', hruns, hEs, hback⟩ := ih hrest hfss
        have hright : Runs (statement (m + 1) inLoop) (.emit (.literal r) line₂ :: mid') back'
            (.output (.literal r) :: ss') :=
          .cons (List.cons_ne_nil _ _) (by simp [next?]) statement_output (Nat.lt_succ_self _) hruns
        refine ⟨_, back', .cons (List.cons_ne_nil _ _) (by simp [next?]) statement_output
          (Nat.lt_succ_self _) hright, .cut l r hEs, ?_⟩
        rwa [Stmt.aloneAll, List.length_append, ← pending_pending]
      · exact hwhole statement_output (.refl _) (hmid false)

lemma block_follows
    (hs : (statement n inLoop).FollowsToken l r (Stmt.alone false) Stmt.Equivalent) :
    (bounded (blockRest (statement n inLoop))).Follows l r Stmt.aloneAll Stmt.EquivalentAll := by
  intro σ items items' hd ss rest h hfree
  obtain ⟨line, hread⟩ := runs_block h
  obtain ⟨ss', back, hread', hE, hback⟩ := hread.follows hs hd hfree
  obtain ⟨line', rest', rfl, hrest⟩ := hback.token
  exact ⟨ss', rest', block_of_runs hread', hE, hrest⟩

/-- A statement that begins with a token of the given kind. -/
def tokenStatement (inner : Level) (stmt : StmtReader) (inLoop : Bool) (k : TokenKind) :
    Reader Stmt :=
  match k with
  | .punct .semicolon => do
    advance
    return .empty
  | .punct .openBrace => do
    advance
    return .block (← bounded (blockRest (stmt inLoop)))
  | .ident word => wordStatement inner stmt inLoop word
  | _ => expressionStatement inner

lemma statementBody_token {t : Token} : statementBody inner nested inLoop (.token t :: items) =
    tokenStatement inner nested inLoop t.kind (.token t :: items) := by
  obtain ⟨k, line⟩ := t
  cases k with
  | punct p => cases p <;> rfl
  | _ => rfl

lemma tokenStatement_follows (hi : ∀ σ, inner.Carries (Divided l r σ))
    (hs : ∀ b, (statement n b).Follows l r (Stmt.alone true) Stmt.Equivalent)
    (htoken : (statement n inLoop).FollowsToken l r (Stmt.alone false) Stmt.Equivalent)
    (k : TokenKind) :
    (tokenStatement inner (statement n) inLoop k).FollowsToken l r (Stmt.alone governed)
      Stmt.Equivalent := by
  have hblock : (do return .block (← bounded (blockRest (statement n inLoop))) :
      Reader Stmt).Follows l r (Stmt.alone governed) Stmt.Equivalent :=
    (block_follows htoken).map (fun _ => rfl) fun _ _ hE => hE.block
  unfold tokenStatement
  split
  · exact (follows_pure rfl (.refl _)).advance
  · exact hblock.advance
  · exact wordStatement_follows hi hs _
  · exact (expressionStatement_follows hi).token

/-- A statement that is governed alone may also be an output, if that is not the text cut. -/
lemma statement_follows_of_token
    (h : (statement n inLoop).FollowsToken l r (Stmt.alone true) Stmt.Equivalent) :
    (statement n inLoop).Follows l r (Stmt.alone true) Stmt.Equivalent := by
  intro σ items items' hd s rest hs hfree
  match items with
  | [] => exact absurd (took_statement n hs).2 (Nat.not_lt_zero _)
  | .token t :: items => exact h hd hs hfree
  | .emit o line :: items =>
    obtain ⟨m, rfl, rfl, rfl⟩ := statement_emit hs
    rcases hd.emit with ⟨rfl, rfl, -⟩ | ⟨line', mid', rfl, hmid⟩
    · exact (hfree 0 rfl rfl).elim
    · exact ⟨.output o, mid', statement_output, .refl _, hmid true⟩

/-- **Statements after a cut**: a statement that begins with a token is read as before, with the
text cut that is in it. -/
lemma statement_follows (n : ℕ) (inLoop governed : Bool) :
    (statement n inLoop).FollowsToken l r (Stmt.alone governed) Stmt.Equivalent := by
  induction n generalizing inLoop governed with
  | zero => exact fun _ _ _ _ _ => followsOn_fail
  | succ n ih =>
    have hi (σ : Option ℕ) : (Level.ofDepth n).Carries (Divided l r σ) :=
      Level.ofDepth_carries divided_tied n
    have hs (b : Bool) : (statement n b).Follows l r (Stmt.alone true) Stmt.Equivalent :=
      statement_follows_of_token (ih b true)
    intro σ t items items' hd s rest h hfree
    obtain ⟨line, mid, rfl, -⟩ := hd.token
    rw [statement, statementBody_token] at h
    rw [statement, statementBody_token]
    exact tokenStatement_follows hi hs (ih inLoop false) t.kind hd h hfree

/-- **Programs after a cut**: where the text cut is not governed alone, the items are read as a
program that makes the same runs. -/
theorem runOn_statements_follows (h : (bounded statements).runOn items = .ok ss)
    (hd : Divided l r σ items items') (hfree : Free σ (Stmt.aloneAll ss)) :
    ∃ ss', (bounded statements).runOn items' = .ok ss' ∧ Stmt.EquivalentAll ss ss' := by
  obtain ⟨rest, hread⟩ := runOn_ok.mp h
  have hruns := runs_of_statements (bounded_ok.mp hread) (Nat.lt_succ_self _)
  obtain ⟨ss', back, hruns', hE, hback⟩ :=
    hruns.follows (statement_follows maxNesting false false) hd hfree
  obtain rfl := hback.nil
  exact ⟨ss', runOn_of_runs hruns', hE⟩

end Stencil.Script
