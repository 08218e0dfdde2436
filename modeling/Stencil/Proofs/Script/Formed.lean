import Mathlib.Data.List.Basic
import Stencil.Proofs.Script.Exact
import Stencil.Proofs.Script.Items
import Stencil.Proofs.Script.Parts

/-!
The form of the statements that the readers answer with.

The form of a statement says how many levels it may nest, whether a loop is around it, and that
its expressions are phrases of the grammar with the levels that are left. What holds of all
statements of a form thus holds of every program that was read, without another look at a reader.
-/

namespace Stencil.Script

open Reader Grammar

/-! ### Forms -/

/-- Some tokens stand for the expression, as a phrase of a kind with at most `n` levels. -/
def Expr.DerivedAs (n : ℕ) (p : Phrase) (e : Expr) : Prop := ∃ ts, Derives n p ts e

/-- The output writes a text or a whole expression. -/
def Output.Derived (o : Output) : Prop :=
  ∀ e, o = .escaped e ∨ o = .raw e → e.DerivedAs maxNesting .expression

/-- Expressions as statements, and declarations. -/
inductive Stmt.Simple (n : ℕ) : Stmt → Prop
  | expr {e : Expr} : e.DerivedAs n .expression → Simple n (.expr e)
  | declare {bindings : List (String × Option Expr)} :
      (∀ name e, (name, some e) ∈ bindings → e.DerivedAs n .assignment) →
      Simple n (.declare bindings)

/-- `Formed n inLoop s`: at most `n` levels are nested in `s`, and `s` leaves a loop around it or
goes on with its next round only if `inLoop`. -/
inductive Stmt.Formed : ℕ → Bool → Stmt → Prop
  | output {n : ℕ} {inLoop : Bool} {o : Output} : o.Derived → Formed (n + 1) inLoop (.output o)
  | simple {n : ℕ} {inLoop : Bool} {s : Stmt} : s.Simple n → Formed (n + 1) inLoop s
  | empty {n : ℕ} {inLoop : Bool} : Formed (n + 1) inLoop .empty
  | block {n : ℕ} {inLoop : Bool} {body : List Stmt} : (∀ s ∈ body, Formed n inLoop s) →
      Formed (n + 1) inLoop (.block body)
  | branch {n : ℕ} {inLoop : Bool} {test : Expr} {yes : Stmt} {no : Option Stmt} :
      test.DerivedAs n .expression → Formed n inLoop yes → (∀ s ∈ no, Formed n inLoop s) →
      Formed (n + 1) inLoop (.branch test yes no)
  | forLoop {n : ℕ} {inLoop : Bool} {init : Option Stmt} {test update : Option Expr}
      {body : Stmt} : (∀ s ∈ init, s.Simple n) → (∀ e ∈ test, e.DerivedAs n .expression) →
      (∀ e ∈ update, e.DerivedAs n .expression) → Formed n true body →
      Formed (n + 1) inLoop (.forLoop init test update body)
  | whileLoop {n : ℕ} {inLoop : Bool} {test : Expr} {body : Stmt} :
      test.DerivedAs n .expression → Formed n true body →
      Formed (n + 1) inLoop (.whileLoop test body)
  | leave {n : ℕ} : Formed (n + 1) true .leave
  | resume {n : ℕ} : Formed (n + 1) true .resume

/-! ### Parts of formed statements -/

/-- The first clause of a loop header. -/
def Stmt.init? : Stmt → Option Stmt
  | .forLoop init _ _ _ => init
  | _ => none

/-- A declaration, or an expression as a statement. -/
def Stmt.IsClause (s : Stmt) : Prop := (∃ bindings, s = .declare bindings) ∨ ∃ e, s = .expr e

lemma Expr.DerivedAs.mono {n m : ℕ} {p : Phrase} {e : Expr} (h : e.DerivedAs n p) (hm : n ≤ m) :
    e.DerivedAs m p := by
  obtain ⟨ts, hd⟩ := h
  exact ⟨ts, hd.mono hm⟩

namespace Stmt

variable {n : ℕ} {inLoop : Bool} {s : Stmt}

lemma Simple.isClause (h : s.Simple n) : s.IsClause := by
  cases h with
  | expr _ => exact .inr ⟨_, rfl⟩
  | declare _ => exact .inl ⟨_, rfl⟩

lemma Simple.derived (h : s.Simple n) : ∀ e ∈ s.exprs, e.DerivedAs n .expression := by
  cases h with
  | expr h => exact List.forall_mem_singleton.mpr h
  | declare h =>
    intro e he
    obtain ⟨⟨name, init⟩, hmem, rfl⟩ := List.mem_filterMap.mp he
    obtain ⟨ts, hd⟩ := h name e hmem
    exact ⟨ts, .single hd⟩

lemma Formed.init (h : Formed n inLoop s) : ∀ init ∈ s.init?, init.IsClause := by
  cases h with
  | forLoop hinit _ _ _ => exact fun init hi => (hinit init hi).isClause
  | simple hs => rcases hs.isClause with ⟨_, rfl⟩ | ⟨_, rfl⟩ <;> simp [init?]
  | _ => simp [init?]

/-- The expressions of a formed statement itself are phrases of the grammar. -/
lemma Formed.derived (h : Formed n inLoop s) (hn : n ≤ maxNesting) :
    ∀ e ∈ s.exprs, e.DerivedAs maxNesting .expression := by
  cases h with
  | @output _ _ o ho =>
    cases o with
    | literal text => exact fun _ he => by cases he
    | escaped e => exact List.forall_mem_singleton.mpr (ho e (.inl rfl))
    | raw e => exact List.forall_mem_singleton.mpr (ho e (.inr rfl))
  | simple hs => exact fun e he => (hs.derived e he).mono (by omega)
  | branch htest _ _ | whileLoop htest _ =>
    exact List.forall_mem_singleton.mpr (htest.mono (by omega))
  | forLoop _ htest hupdate _ =>
    refine List.forall_mem_append.mpr ⟨fun e he => ?_, fun e he => ?_⟩
    · exact (htest e (Option.mem_toList.mp he)).mono (by omega)
    · exact (hupdate e (Option.mem_toList.mp he)).mono (by omega)
  | empty | block | leave | resume => exact fun _ he => by cases he

/-- What a formed statement is made of nests one level less, or is a clause of a header. -/
lemma Formed.child (h : Formed n inLoop s) :
    ∀ c ∈ s.children, ∃ m < n, c.Simple m ∨ ∃ b, Formed m b c := by
  cases h with
  | output | empty | leave | resume => exact fun _ hc => by cases hc
  | simple hs => rcases hs.isClause with ⟨_, rfl⟩ | ⟨_, rfl⟩ <;> exact fun _ hc => by cases hc
  | @block n _ body hbody => exact fun c hc => ⟨n, by omega, .inr ⟨_, hbody c hc⟩⟩
  | @branch n _ _ _ _ _ hyes hno =>
    refine List.forall_mem_cons.mpr ⟨⟨n, by omega, .inr ⟨_, hyes⟩⟩, fun c hc => ?_⟩
    exact ⟨n, by omega, .inr ⟨_, hno c (Option.mem_toList.mp hc)⟩⟩
  | @forLoop n _ _ _ _ _ hinit _ _ hbody =>
    refine List.forall_mem_append.mpr ⟨fun c hc => ?_, List.forall_mem_singleton.mpr ?_⟩
    · exact ⟨n, by omega, .inl (hinit c (Option.mem_toList.mp hc))⟩
    · exact ⟨n, by omega, .inr ⟨_, hbody⟩⟩
  | @whileLoop n _ _ _ _ hbody =>
    exact List.forall_mem_singleton.mpr ⟨n, by omega, .inr ⟨_, hbody⟩⟩

lemma Formed.part (h : Formed n inLoop s) : ∀ x ∈ s.parts, ∃ m ≤ n, ∃ b, Formed m b x := by
  refine forall_mem_parts_of_children (P := fun x => ∃ m ≤ n, ∃ b, Formed m b x) ?_
    ⟨n, Nat.le_refl n, inLoop, h⟩
  rintro s ⟨m, hm, b, hf⟩ c hc
  obtain ⟨k, hk, hs | ⟨b', hf'⟩⟩ := hf.child c hc
  · exact ⟨k + 1, by omega, false, .simple hs⟩
  · exact ⟨k, by omega, b', hf'⟩

end Stmt

/-! ### What readers yield -/

variable {α β : Type} {P : α → Prop} {Q : β → Prop} {items rest : List Item}

/-- The outputs among the items are ones that an instruction can stand for. -/
def AllDerived (items : List Item) : Prop := ∀ o line, .emit o line ∈ items → o.Derived

lemma AllDerived.tail {i : Item} (h : AllDerived (i :: items)) : AllDerived items :=
  fun o line hmem => h o line (List.mem_cons_of_mem _ hmem)

lemma AllDerived.of_spans {ts : List TokenKind} (h : AllDerived items)
    (hspan : Spans items rest ts) : AllDerived rest := by
  obtain ⟨tokens, rfl, -⟩ := hspan
  exact fun o line hmem => h o line (List.mem_append_right _ hmem)

namespace Reader

/-- On items with derived outputs, the reader answers with what has the property. -/
def Yields (r : Reader α) (P : α → Prop) : Prop :=
  ∀ ⦃items rest : List Item⦄ ⦃a : α⦄, AllDerived items → r items = .ok (a, rest) →
    P a ∧ AllDerived rest

lemma yields_pure {b : β} (h : Q b) : (pure b : Reader β).Yields Q := by
  intro items rest b' hi hr
  obtain ⟨rfl, rfl⟩ := pure_ok.mp hr
  exact ⟨h, hi⟩

lemma yields_fail {cause : Cause} : (fail cause : Reader β).Yields Q := fun _ _ _ _ h =>
  (fail_ok h).elim

lemma yields_failFound {cause : String → Cause} : (failFound cause : Reader β).Yields Q :=
  fun _ _ _ _ h => (failFound_ok h).elim

lemma Yields.bind {x : Reader α} {f : α → Reader β} (hx : x.Yields P)
    (hf : ∀ a, P a → (f a).Yields Q) : (x >>= f).Yields Q := by
  intro items rest b hi h
  obtain ⟨a, mid, ha, hb⟩ := bind_ok.mp h
  obtain ⟨hpa, hmid⟩ := hx hi ha
  exact hf a hpa hmid hb

lemma Yields.map {x : Reader α} {g : α → β} (hx : x.Yields fun a => Q (g a)) :
    (g <$> x).Yields Q := by
  rw [map_eq_pure_bind]
  exact hx.bind fun _ ha => yields_pure ha

lemma Yields.mono {x : Reader α} {P' : α → Prop} (hx : x.Yields P) (h : ∀ a, P a → P' a) :
    x.Yields P' :=
  fun _ _ _ hi hr => ⟨h _ (hx hi hr).1, (hx hi hr).2⟩

lemma yields_get : (get : Reader (List Item)).Yields AllDerived := by
  intro items rest is hi h
  obtain ⟨rfl, rfl⟩ := get_ok.mp h
  exact ⟨hi, hi⟩

lemma yields_peek? : peek?.Yields fun _ => True := by
  intro items rest k hi h
  obtain ⟨-, rfl⟩ := peek?_ok.mp h
  exact ⟨trivial, hi⟩

lemma yields_peekIs {p : Punct} : (peekIs p).Yields fun _ => True :=
  yields_peek?.bind fun _ _ => yields_pure trivial

lemma yields_advance : advance.Yields fun _ => True := by
  intro items rest u hi h
  obtain rfl := advance_ok.mp h
  exact ⟨trivial, fun o line hmem => hi o line (List.mem_of_mem_tail hmem)⟩

lemma Yields.ite {c : Prop} [Decidable c] {x y : Reader β} (hx : c → x.Yields Q)
    (hy : ¬c → y.Yields Q) : (if c then x else y).Yields Q := by
  split_ifs with hc
  · exact hx hc
  · exact hy hc

lemma yields_eat {p : Punct} : (eat p).Yields fun _ => True :=
  yields_peekIs.bind fun _ _ => .ite (fun _ => yields_advance.bind fun _ _ => yields_pure trivial)
    fun _ => yields_pure trivial

lemma yields_expect {p : Punct} : (expect p).Yields fun _ => True := by
  intro items rest u hi h
  obtain ⟨line, rfl⟩ := expect_ok.mp h
  exact ⟨trivial, hi.tail⟩

lemma Yields.bounded {loop : ℕ → Reader β} (h : ∀ n, (loop n).Yields Q) :
    (bounded loop).Yields Q :=
  yields_get.bind fun _ _ => h _

lemma Sound.yields {n : ℕ} {p : Phrase} {r : Reader Expr} (h : r.Sound (Derives n p)) :
    r.Yields (Expr.DerivedAs n p) := by
  intro items rest e hi hr
  obtain ⟨ts, hspan, hd⟩ := h hr
  exact ⟨⟨ts, hd⟩, hi.of_spans hspan⟩

end Reader

/-! ### Parts of statements -/

variable {inner : Level} {n : ℕ} {inLoop : Bool}

lemma yields_expression (hi : inner.Sound n) :
    inner.expression.Yields (Expr.DerivedAs n .expression) :=
  (Level.expression_sound hi).yields

lemma yields_condition (hi : inner.Sound n) :
    (condition inner).Yields (Expr.DerivedAs n .expression) :=
  yields_expect.bind fun _ _ => (yields_expression hi).bind fun _ ht =>
    yields_expect.bind fun _ _ => yields_pure ht

lemma yields_bindingName : bindingName.Yields fun _ => True := by
  refine yields_peek?.bind fun kind _ => ?_
  split
  · exact .ite (fun _ => yields_failFound) fun _ =>
      yields_advance.bind fun _ _ => yields_pure trivial
  · exact yields_failFound

lemma yields_bindings (hi : inner.Sound n) (fuel : ℕ) : (bindings inner fuel).Yields
    fun bs => ∀ name e, (name, some e) ∈ bs → e.DerivedAs n .assignment := by
  induction fuel with
  | zero => exact yields_pure (by simp)
  | succ fuel ih =>
    -- what comes after the initializer of a binding, if that is derived
    have hnext (name : String) (init : Option Expr)
        (hinit : ∀ e ∈ init, e.DerivedAs n .assignment) :
        Yields (P := fun bs => ∀ name e, (name, some e) ∈ bs → e.DerivedAs n .assignment) (do
          if ← eat .comma then
            return (name, init) :: (← bindings inner fuel)
          else
            return [(name, init)]) := by
      refine yields_eat.bind fun _ _ => .ite (fun _ => ih.bind fun bs hbs => yields_pure ?_)
        fun _ => yields_pure ?_
      · intro name' e hmem
        rcases List.mem_cons.mp hmem with heq | hmem
        · cases heq
          exact hinit e rfl
        · exact hbs name' e hmem
      · intro name' e hmem
        cases List.mem_singleton.mp hmem
        exact hinit e rfl
    have hsome : (some <$> inner.assignment).Yields fun init =>
        ∀ e ∈ init, e.DerivedAs n .assignment :=
      Yields.map (hi.assignment.yields.mono fun e he e' he' => by cases he'; exact he)
    exact yields_bindingName.bind fun name _ => yields_eat.bind fun _ _ =>
      .ite (fun _ => hsome.bind (hnext name)) fun _ => hnext name none (by simp)

lemma yields_declaration (hi : inner.Sound n) : (declaration inner).Yields (Stmt.Simple n) :=
  (Yields.bounded (yields_bindings hi)).bind fun _ hbs => yields_pure (.declare hbs)

lemma yields_clause (hi : inner.Sound n) {mark : Punct} :
    (clause inner mark).Yields fun clause => ∀ e ∈ clause, e.DerivedAs n .expression :=
  yields_peekIs.bind fun _ _ => .ite (fun _ => yields_pure (by simp)) fun _ =>
    (yields_expression hi).bind fun _ he => yields_pure (by simpa using he)

lemma yields_initial (hi : inner.Sound n) :
    (initial inner).Yields fun init => ∀ s ∈ init, s.Simple n := by
  have hdeclaration : (do advance; return some (← declaration inner) : Reader (Option Stmt)).Yields
      fun init => ∀ s ∈ init, s.Simple n :=
    yields_advance.bind fun _ _ => (yields_declaration hi).bind fun _ hs =>
      yields_pure (by simpa using hs)
  have hexpr : (do return some (.expr (← inner.expression)) : Reader (Option Stmt)).Yields
      fun init => ∀ s ∈ init, s.Simple n :=
    (yields_expression hi).bind fun _ he => yields_pure (by simpa using Stmt.Simple.expr he)
  exact yields_peekIs.bind fun _ _ => .ite (fun _ => yields_pure (by simp)) fun _ =>
    yields_peek?.bind fun _ _ => .ite (fun _ => hdeclaration) fun _ => hexpr

/-! ### Statements -/

variable {stmt : Reader Stmt} {nested : StmtReader} {S : Stmt → Prop}

lemma yields_blockRest (hs : stmt.Yields S) (fuel : ℕ) :
    (blockRest stmt fuel).Yields fun body => ∀ s ∈ body, S s := by
  induction fuel with
  | zero => exact yields_pure (by simp)
  | succ fuel ih =>
    refine yields_eat.bind fun _ _ => .ite (fun _ => yields_pure (by simp)) fun _ =>
      yields_get.bind fun _ _ => .ite (fun _ => yields_fail) fun _ => ?_
    exact hs.bind fun s hs => ih.bind fun body hbody =>
      yields_pure (List.forall_mem_cons.mpr ⟨hs, hbody⟩)

lemma yields_elseBranch (hs : stmt.Yields S) :
    (elseBranch stmt).Yields fun no => ∀ s ∈ no, S s :=
  yields_peek?.bind fun _ _ => .ite
    (fun _ => yields_advance.bind fun _ _ => hs.bind fun _ hs => yields_pure (by simpa using hs))
    fun _ => yields_pure (by simp)

lemma yields_branchRest (hi : inner.Sound n) (hs : stmt.Yields (Stmt.Formed n inLoop)) :
    (branchRest inner stmt).Yields (Stmt.Formed (n + 1) inLoop) :=
  (yields_condition hi).bind fun _ htest => hs.bind fun _ hyes =>
    (yields_elseBranch hs).bind fun _ hno => yields_pure (.branch htest hyes hno)

lemma yields_forRest (hi : inner.Sound n) (hs : stmt.Yields (Stmt.Formed n true)) :
    (forRest inner stmt).Yields (Stmt.Formed (n + 1) inLoop) :=
  yields_expect.bind fun _ _ => (yields_initial hi).bind fun _ hinit =>
    yields_expect.bind fun _ _ => (yields_clause hi).bind fun _ htest =>
    yields_expect.bind fun _ _ => (yields_clause hi).bind fun _ hupdate =>
    yields_expect.bind fun _ _ => hs.bind fun _ hbody =>
      yields_pure (.forLoop hinit htest hupdate hbody)

lemma yields_whileRest (hi : inner.Sound n) (hs : stmt.Yields (Stmt.Formed n true)) :
    (whileRest inner stmt).Yields (Stmt.Formed (n + 1) inLoop) :=
  (yields_condition hi).bind fun _ htest => hs.bind fun _ hbody =>
    yields_pure (.whileLoop htest hbody)

lemma yields_ended {s : Stmt} (h : S s) : (ended s).Yields S :=
  Yields.bind (.map (yields_eat.mono fun _ _ => trivial)) fun _ (_ : True) => yields_pure h

lemma yields_expressionStatement (hi : inner.Sound n) :
    (expressionStatement inner).Yields (Stmt.Formed (n + 1) inLoop) :=
  (yields_expression hi).bind fun _ he => yields_ended (.simple (.expr he))

lemma yields_jump {word : String} {s : Stmt} (h : S s) (hloop : inLoop = true) :
    (jump word s inLoop).Yields S :=
  .ite (fun _ => yields_advance.bind fun _ _ => yields_ended h) fun hne => absurd hloop hne

lemma yields_wordStatement {word : String} (hi : inner.Sound n)
    (hs : ∀ b, (nested b).Yields (Stmt.Formed n b)) :
    (wordStatement inner nested inLoop word).Yields (Stmt.Formed (n + 1) inLoop) := by
  have hjump (s : Stmt) (h : Stmt.Formed (n + 1) true s) :
      (jump word s inLoop).Yields (Stmt.Formed (n + 1) inLoop) := by
    cases inLoop with
    | true => exact yields_jump h rfl
    | false => exact yields_fail
  unfold wordStatement
  refine .ite (fun _ => yields_advance.bind fun _ _ => yields_branchRest hi (hs _)) fun _ =>
    .ite (fun _ => yields_advance.bind fun _ _ => yields_forRest hi (hs _)) fun _ =>
    .ite (fun _ => yields_advance.bind fun _ _ => yields_whileRest hi (hs _)) fun _ =>
    .ite (fun _ => yields_advance.bind fun _ _ => ?_) fun _ =>
    .ite (fun _ => hjump _ .leave) fun _ => .ite (fun _ => hjump _ .resume) fun _ =>
    .ite (fun _ => yields_fail) fun _ => yields_expressionStatement hi
  exact (yields_declaration hi).bind fun _ hd => yields_ended (.simple hd)

lemma yields_statementBody (hi : inner.Sound n) (hs : ∀ b, (nested b).Yields (Stmt.Formed n b)) :
    (statementBody inner nested inLoop).Yields (Stmt.Formed (n + 1) inLoop) := by
  refine yields_get.bind fun items hitems => ?_
  split
  · rename_i o line mid
    have ho : o.Derived := hitems o line (List.mem_cons_self ..)
    exact yields_advance.bind fun _ _ => yields_pure (.output ho)
  · exact yields_advance.bind fun _ _ => yields_pure .empty
  · exact yields_advance.bind fun _ _ =>
      (Yields.bounded (yields_blockRest (hs _))).bind fun _ hbody => yields_pure (.block hbody)
  · exact yields_wordStatement hi hs
  · exact yields_expressionStatement hi

/-- The readers of a depth answer with statements that nest no deeper than that. -/
theorem yields_statement (n : ℕ) (inLoop : Bool) :
    (statement n inLoop).Yields (Stmt.Formed n inLoop) := by
  induction n generalizing inLoop with
  | zero => exact yields_fail
  | succ n ih => exact yields_statementBody (Level.ofDepth_sound n) ih

/-! ### Programs -/

lemma yields_statements (fuel : ℕ) :
    (statements fuel).Yields fun body => ∀ s ∈ body, Stmt.Formed maxNesting false s := by
  induction fuel with
  | zero => exact yields_pure (by simp)
  | succ fuel ih =>
    refine yields_get.bind fun _ _ => .ite (fun _ => yields_pure (by simp)) fun _ =>
      yields_peekIs.bind fun _ _ => .ite (fun _ => yields_fail) fun _ => ?_
    exact (yields_statement maxNesting false).bind fun s hs => ih.bind fun body hbody =>
      yields_pure (List.forall_mem_cons.mpr ⟨hs, hbody⟩)

lemma derivedAs_of_parseExpression {source : String} {line : ℕ} {e : Expr}
    (h : parseExpression source line = .ok e) : e.DerivedAs maxNesting .expression := by
  obtain ⟨tokens, -, h⟩ := except_bind_ok.mp h
  split_ifs at h
  exact ⟨_, derives_of_completeExpression h⟩

variable {instructions : List Instruction}

lemma allDerived_of_makes {i : Instruction} {line next : ℕ} (h : i.Makes line items next) :
    AllDerived items := by
  intro o line' hmem
  cases h with
  | literal text =>
    cases List.mem_singleton.mp hmem
    rintro e (he | he) <;> cases he
  | execute =>
    obtain ⟨t, -, heq⟩ := List.mem_map.mp hmem
    cases heq
  | escaped _ he | raw _ he =>
    cases List.mem_singleton.mp hmem
    rintro e' (h | h) <;> cases h
    exact derivedAs_of_parseExpression he
  | noop => cases hmem

lemma allDerived_of_itemsFrom {line : ℕ} (h : itemsFrom line instructions = .ok items) :
    AllDerived items := by
  induction instructions generalizing line items with
  | nil =>
    cases h
    exact fun o line hmem => by cases hmem
  | cons i instructions ih =>
    obtain ⟨first, next, more, hi, hmore, rfl⟩ := itemsFrom_cons_ok.mp h
    intro o line' hmem
    rcases List.mem_append.mp hmem with hmem | hmem
    · exact allDerived_of_makes hi o line' hmem
    · exact ih hmore o line' hmem

/-- Every statement of a program that was read has the form of a statement outside of loops. -/
theorem formed_of_parseProgram {p : Program} (h : parseProgram instructions = .ok p) :
    ∀ s ∈ p.body, Stmt.Formed maxNesting false s := by
  obtain ⟨items, hitems, h⟩ := except_bind_ok.mp h
  obtain ⟨body, hbody, h⟩ := except_bind_ok.mp h
  cases h
  obtain ⟨rest, hrun⟩ := runOn_ok.mp hbody
  exact (Yields.bounded yields_statements (allDerived_of_itemsFrom hitems) hrun).1

lemma formed_of_mem_stmts {p : Program} (h : parseProgram instructions = .ok p) :
    ∀ s ∈ p.stmts, ∃ n ≤ maxNesting, ∃ b, Stmt.Formed n b s := by
  intro s hs
  obtain ⟨top, htop, hs⟩ := List.mem_flatMap.mp hs
  exact (formed_of_parseProgram h top htop).part s hs

end Stencil.Script
