import Stencil.Proofs.Script.Division

/-!
Putting the two parts of a text together again.

Items that are read as a program with a text in two parts are also read with the whole text. Where
a header or a keyword governs the first part alone, the second part stands behind what it governs,
and no `else` can follow there that the whole text would leave to an `if` before it.
-/

namespace Stencil.Script

open Reader

variable {α β : Type} {l r : String} {σ : Option ℕ} {items items' mid back rest rest' : List Item}

/-- A text in two parts and the whole text are alike to readers of expressions, either way. -/
lemma rejoined_tied : Tied fun items' items => Divided l r σ items items' where
  next h := (divided_tied.next h).symm
  tail h hnext := divided_tied.tail h (by rwa [divided_tied.next h])

lemma Divided.token_right {t : Token} (h : Divided l r σ items (.token t :: items')) :
    ∃ line mid, items = .token ⟨t.kind, line⟩ :: mid ∧ Divided l r σ mid items' := by
  have hnext : next? items = some t.kind := divided_tied.next h
  obtain ⟨line, mid, rfl⟩ := next?_eq_some.mp hnext
  obtain ⟨line', mid', heq, hmid⟩ := h.token
  obtain ⟨-, rfl⟩ := List.cons.inj heq
  exact ⟨line, mid, rfl, hmid⟩

lemma Divided.nil_right (h : Divided l r σ items []) : items = [] := by
  match items with
  | [] => rfl
  | .token t :: items =>
    obtain ⟨_, _, heq, -⟩ := h.token
    cases heq
  | .emit o line :: items =>
    rcases h.emit with ⟨-, -, _, _, _, heq, -⟩ | ⟨_, _, heq, -⟩ <;> cases heq

namespace Reader

variable {x : Reader α} {y : Reader β}

/-- The reader stopped between the parts of the text, and reads the whole of it where that is not
cut, unless there is an `else` behind it. -/
def Halved (r : String) (x : Reader α) (items rest' : List Item) : Prop :=
  ∃ line back back', rest' = .emit (.literal r) line :: back' ∧ Aligned back back' ∧
    (next? back ≠ some (.ident "else") → ∃ a, x items = .ok (a, back))

lemma Halved.next?_eq (h : x.Halved r items rest') : next? rest' = none := by
  obtain ⟨_, _, _, rfl, -, -⟩ := h
  rfl

/-- A reader that ends with what `x` leaves stops between the parts where `x` does. -/
lemma Halved.trans (h : x.Halved r mid rest')
    (hy : ∀ ⦃a back⦄, next? back ≠ some (.ident "else") → x mid = .ok (a, back) →
      ∃ b, y items = .ok (b, back)) : y.Halved r items rest' := by
  obtain ⟨line, back, back', hrest, hback, hx⟩ := h
  refine ⟨line, back, back', hrest, hback, fun helse => ?_⟩
  obtain ⟨a, ha⟩ := hx helse
  exact hy helse ha

/-- Where the reader succeeds on the second list, it does so on the first, or it stopped between
the parts. -/
def RejoinsOn (l r : String) (x : Reader α) (items items' : List Item) : Prop :=
  ∀ ⦃a' : α⦄ ⦃rest' : List Item⦄, x items' = .ok (a', rest') →
    (∃ σ a rest, x items = .ok (a, rest) ∧ Divided l r σ rest rest') ∨ x.Halved r items rest'

def Rejoins (l r : String) (x : Reader α) : Prop :=
  ∀ ⦃σ items items'⦄, Divided l r σ items items' → x.RejoinsOn l r items items'

/-- The reader does so on items that begin with a token. -/
def RejoinsToken (l r : String) (x : Reader α) : Prop :=
  ∀ ⦃σ t items items'⦄, Divided l r σ (.token t :: items) items' →
    x.RejoinsOn l r (.token t :: items) items'

lemma Rejoins.token (h : x.Rejoins l r) : x.RejoinsToken l r := fun _ _ _ _ hd => h hd

lemma rejoins_pure {a : α} : (pure a : Reader α).Rejoins l r := by
  intro σ items items' hd b rest' h
  obtain ⟨rfl, rfl⟩ := pure_ok.mp h
  exact .inl ⟨σ, a, items, rfl, hd⟩

lemma rejoinsOn_fail {cause : Cause} : (fail cause : Reader α).RejoinsOn l r items items' :=
  fun _ _ h => (fail_ok h).elim

lemma Rejoins.after {f : α → Reader β}
    (hx : ∀ σ, x.Carries fun items' items => Divided l r σ items items')
    (hf : ∀ a, (f a).Rejoins l r) : (x >>= f).Rejoins l r := by
  intro σ items items' hd b rest' h
  obtain ⟨a, mid', ha', hb'⟩ := bind_ok.mp h
  obtain ⟨mid, ha, hmid⟩ := (hx σ).run hd ha'
  rcases hf a hmid hb' with ⟨σ', b, rest, hb, hrest⟩ | hhalved
  · exact .inl ⟨σ', b, rest, bind_ok.mpr ⟨a, mid, ha, hb⟩, hrest⟩
  · exact .inr (hhalved.trans fun b back _ hb => ⟨b, bind_ok.mpr ⟨a, mid, ha, hb⟩⟩)

lemma Rejoins.map (g : α → β) (hx : x.Rejoins l r) :
    (x >>= fun a => pure (g a)).Rejoins l r := by
  intro σ items items' hd b rest' h
  obtain ⟨a', mid', ha', hpure⟩ := bind_ok.mp h
  obtain ⟨-, rfl⟩ := pure_ok.mp hpure
  rcases hx hd ha' with ⟨σ', a, rest, ha, hrest⟩ | hhalved
  · exact .inl ⟨σ', g a, rest, bind_ok.mpr ⟨a, rest, ha, rfl⟩, hrest⟩
  · exact .inr (hhalved.trans fun a back _ ha => ⟨g a, bind_ok.mpr ⟨a, back, ha, rfl⟩⟩)

lemma Rejoins.advance (hx : x.Rejoins l r) :
    (do advance; x : Reader α).RejoinsToken l r := by
  intro σ t items items' hd a rest' h
  obtain ⟨line, mid, rfl, hmid⟩ := hd.token
  exact hx hmid h

end Reader

variable {inner : Level} {stmt : Reader Stmt} {nested : StmtReader} {inLoop : Bool} {n : ℕ}

lemma elseBranch_rejoins (hs : stmt.Rejoins l r) : (elseBranch stmt).Rejoins l r := by
  intro σ items items' hd no rest' h
  have hnext := divided_tied.next hd
  by_cases helse : next? items = some (.ident "else")
  · obtain ⟨line, mid, rfl⟩ := next?_eq_some.mp helse
    obtain ⟨line', mid', rfl, hmid⟩ := hd.token
    have hsome : (do return some (← stmt) : Reader (Option Stmt)).Rejoins l r := hs.map some
    exact hsome hmid h
  · have helse' : next? items' ≠ some (.ident "else") := by rwa [← hnext]
    rw [elseBranch_of_ne helse'] at h
    cases h
    exact .inl ⟨σ, none, items, elseBranch_of_ne helse stmt, hd⟩

lemma branchRest_rejoins
    (hi : ∀ σ, inner.Carries fun items' items => Divided l r σ items items')
    (hs : stmt.Rejoins l r) : (branchRest inner stmt).Rejoins l r := by
  refine .after (fun σ => condition_carries rejoined_tied (hi σ)) fun test => ?_
  intro σ items items' hd s rest' h
  simp only [bind_ok, pure_ok] at h
  obtain ⟨yes', mid', hyes', no', _, hno', rfl, rfl⟩ := h
  rcases hs hd hyes' with ⟨σ', yes, mid, hyes, hmid⟩ | hhalved
  · rcases elseBranch_rejoins hs hmid hno' with ⟨σ'', no, rest, hno, hrest⟩ | hhalved
    · refine .inl ⟨σ'', .branch test yes no, rest, ?_, hrest⟩
      rw [bind_of_ok hyes, bind_of_ok hno]
      rfl
    · refine .inr (hhalved.trans fun no back _ hno => ⟨.branch test yes no, ?_⟩)
      rw [bind_of_ok hyes, bind_of_ok hno]
      rfl
  · -- behind the first part there is no `else`
    rw [elseBranch_of_ne (by simp [hhalved.next?_eq])] at hno'
    cases hno'
    refine .inr (hhalved.trans fun yes back helse hyes => ⟨.branch test yes none, ?_⟩)
    rw [bind_of_ok hyes, bind_of_ok (elseBranch_of_ne helse stmt)]
    rfl

lemma forRest_rejoins
    (hi : ∀ σ, inner.Carries fun items' items => Divided l r σ items items')
    (hs : stmt.Rejoins l r) : (forRest inner stmt).Rejoins l r := by
  have hmark (p : Punct) (σ : Option ℕ) :
      (expect p).Carries fun items' items => Divided l r σ items items' :=
    expect_carries rejoined_tied p
  have hclause (mark : Punct) (σ : Option ℕ) :
      (clause inner mark).Carries fun items' items => Divided l r σ items items' :=
    clause_carries rejoined_tied (hi σ) mark
  exact .after (hmark _) fun _ => .after (fun σ => initial_carries rejoined_tied (hi σ)) fun init =>
    .after (hmark _) fun _ => .after (hclause _) fun test => .after (hmark _) fun _ =>
    .after (hclause _) fun update => .after (hmark _) fun _ =>
      hs.map (Stmt.forLoop init test update)

lemma whileRest_rejoins
    (hi : ∀ σ, inner.Carries fun items' items => Divided l r σ items items')
    (hs : stmt.Rejoins l r) : (whileRest inner stmt).Rejoins l r :=
  .after (fun σ => condition_carries rejoined_tied (hi σ)) fun test => hs.map (Stmt.whileLoop test)

lemma ended_rejoins (s : Stmt) : (ended s).Rejoins l r :=
  .after (fun _ => (eat_carries rejoined_tied .semicolon).discard) fun _ => rejoins_pure

lemma jump_rejoins {word : String} (s : Stmt) : (jump word s inLoop).RejoinsToken l r := by
  unfold jump
  split_ifs
  · exact (ended_rejoins s).advance
  · exact fun _ _ _ _ _ => rejoinsOn_fail

lemma expressionStatement_rejoins
    (hi : ∀ σ, inner.Carries fun items' items => Divided l r σ items items') :
    (expressionStatement inner).Rejoins l r :=
  .after (fun σ => Level.expression_carries rejoined_tied (hi σ)) fun _ => ended_rejoins _

lemma wordStatement_rejoins
    (hi : ∀ σ, inner.Carries fun items' items => Divided l r σ items items')
    (hs : ∀ b, (nested b).Rejoins l r) (word : String) :
    (wordStatement inner nested inLoop word).RejoinsToken l r := by
  have hdeclaration : (declaration inner >>= ended).Rejoins l r :=
    .after (fun σ => declaration_carries rejoined_tied (hi σ)) ended_rejoins
  unfold wordStatement
  split_ifs
  · exact (branchRest_rejoins hi (hs _)).advance
  · exact (forRest_rejoins hi (hs _)).advance
  · exact (whileRest_rejoins hi (hs _)).advance
  · exact hdeclaration.advance
  · exact jump_rejoins _
  · exact jump_rejoins _
  · exact fun _ _ _ _ _ => rejoinsOn_fail
  · exact (expressionStatement_rejoins hi).token

/-! ### Statements in turn -/

variable {s : Stmt} {ss' : List Stmt} {back' : List Item}

/-- No statement begins with an `else`. -/
lemma statement_next?_ne_else (h : statement n inLoop items = .ok (s, rest)) :
    next? items ≠ some (.ident "else") := by
  intro helse
  obtain ⟨line, mid, rfl⟩ := next?_eq_some.mp helse
  cases n with
  | zero => exact fail_ok h
  | succ n => exact fail_ok h

lemma Runs.next?_ne_else (h : Runs (statement n inLoop) items back ss')
    (hback : next? back ≠ some (.ident "else")) : next? items ≠ some (.ident "else") := by
  cases h with
  | nil => exact hback
  | cons _ _ hs _ _ => exact statement_next?_ne_else hs

/-- What is read in turn with the text in two parts is also read with the whole text, up to the
same mark. -/
lemma Runs.rejoins (hs : (statement n inLoop).Rejoins l r)
    (h : Runs (statement n inLoop) items' back' ss') (hd : Divided l r σ items items')
    (helse : next? back' ≠ some (.ident "else"))
    (hemit : ∀ o line tail, back' ≠ .emit o line :: tail) :
    ∃ ss σ back, Runs (statement n inLoop) items back ss ∧ Divided l r σ back back' := by
  induction h generalizing σ items with
  | nil => exact ⟨[], σ, items, .nil, hd⟩
  | @cons items' mid' back' s' ss' hne hbrace hfirst hlen hmore ih =>
    have hnext := divided_tied.next hd
    -- the statement is read with all of the text that it takes, and then the others
    have hwhole {s : Stmt} {mid back : List Item} {ss : List Stmt} {σ : Option ℕ}
        (hs' : statement n inLoop items = .ok (s, mid)) (hruns : Runs (statement n inLoop) mid back ss)
        (hback : Divided l r σ back back') :
        ∃ ss σ back, Runs (statement n inLoop) items back ss ∧ Divided l r σ back back' := by
      have hlen' := (took_statement n hs').2
      have hne' : items ≠ [] := List.ne_nil_of_length_pos (by omega)
      exact ⟨s :: ss, σ, back, .cons hne' (hnext ▸ hbrace) hs' hlen' hruns, hback⟩
    rcases hs hd hfirst with ⟨σ', s, mid, hs', hmid⟩ | ⟨line, mid, rest', rfl, hmid, hs'⟩
    · obtain ⟨ss, σ'', back, hruns, hback⟩ := ih hmid helse hemit
      exact hwhole hs' hruns hback
    · -- the second part is the next statement, and the others are the same
      cases hmore with
      | nil => exact (hemit _ _ _ rfl).elim
      | cons _ _ hsecond _ hmore =>
        obtain ⟨m, rfl, -, rfl⟩ := statement_emit hsecond
        have haligned : Divided l r none mid _ := hmid
        obtain ⟨s, hs'⟩ := hs' (by
          rw [divided_tied.next haligned]
          exact hmore.next?_ne_else helse)
        obtain ⟨ss, back, hruns, -, hback⟩ :=
          hmore.follows (l := l) (r := r) (σ := none) (statement_follows (m + 1) inLoop false) hmid.symm
            (free_none _)
        exact hwhole (σ := none) hs' hruns hback.symm

lemma block_rejoins (hs : (statement n inLoop).Rejoins l r) :
    (bounded (blockRest (statement n inLoop))).Rejoins l r := by
  intro σ items items' hd ss' rest' h
  obtain ⟨line, hread⟩ := runs_block h
  obtain ⟨ss, σ', back, hread', hback⟩ :=
    hread.rejoins hs hd (by simp [next?]) fun _ _ _ heq => by cases heq
  obtain ⟨line', rest, rfl, hrest⟩ := hback.token_right
  exact .inl ⟨σ', ss, rest, block_of_runs hread', hrest⟩

lemma tokenStatement_rejoins
    (hi : ∀ σ, inner.Carries fun items' items => Divided l r σ items items')
    (hs : ∀ b, (statement n b).Rejoins l r) (k : TokenKind) :
    (tokenStatement inner (statement n) inLoop k).RejoinsToken l r := by
  unfold tokenStatement
  split
  · exact rejoins_pure.advance
  · exact ((block_rejoins (hs _)).map Stmt.block).advance
  · exact wordStatement_rejoins hi hs _
  · exact (expressionStatement_rejoins hi).token

/-- **Statements of a text put together**: where a statement is read with the text in two parts, it
is read with the whole text, or the first part alone was read. -/
lemma statement_rejoins (n : ℕ) (inLoop : Bool) : (statement n inLoop).Rejoins l r := by
  induction n generalizing inLoop with
  | zero => exact fun _ _ _ _ => rejoinsOn_fail
  | succ n ih =>
    have hi (σ : Option ℕ) : (Level.ofDepth n).Carries fun items' items => Divided l r σ items items' :=
      Level.ofDepth_carries rejoined_tied n
    intro σ items items' hd s rest' h
    match items with
    | [] =>
      obtain rfl := hd.nil
      exact absurd (took_statement (n + 1) h).2 (Nat.not_lt_zero _)
    | .token t :: items =>
      obtain ⟨line, mid, rfl, -⟩ := hd.token
      rw [statement, statementBody_token] at h
      have hbody : statementBody (Level.ofDepth n) (statement n) inLoop (.token t :: items) =
          tokenStatement (Level.ofDepth n) (statement n) inLoop t.kind (.token t :: items) :=
        statementBody_token
      rcases tokenStatement_rejoins hi ih t.kind hd h with ⟨σ', s, rest, hs, hrest⟩ | hhalved
      · exact .inl ⟨σ', s, rest, hbody.trans hs, hrest⟩
      · exact .inr (hhalved.trans fun s back _ hs => ⟨s, hbody.trans hs⟩)
    | .emit o line :: items =>
      rcases hd.emit with ⟨-, rfl, line₁, line₂, mid, rfl, hmid⟩ | ⟨line', mid, rfl, hmid⟩
      · -- the first part is the statement
        obtain ⟨m, -, -, rfl⟩ := statement_emit h
        exact .inr ⟨line₂, items, mid, rfl, hmid, fun _ => ⟨_, statement_output⟩⟩
      · obtain ⟨m, -, -, rfl⟩ := statement_emit h
        exact .inl ⟨_, _, _, statement_output, hmid true⟩

/-- **Programs of a text put together**: items that are read as a program with a text in two parts
are read as a program with the whole text. -/
theorem runOn_statements_rejoins (h : (bounded statements).runOn items' = .ok ss')
    (hd : Divided l r σ items items') : ∃ ss, (bounded statements).runOn items = .ok ss := by
  obtain ⟨rest, hread⟩ := runOn_ok.mp h
  have hruns := runs_of_statements (bounded_ok.mp hread) (Nat.lt_succ_self _)
  obtain ⟨ss, σ', back, hruns', hback⟩ := hruns.rejoins (statement_rejoins maxNesting false) hd
    (by simp [next?]) fun _ _ _ heq => by cases heq
  obtain rfl := hback.nil_right
  exact ⟨ss, runOn_of_runs hruns'⟩

end Stencil.Script
