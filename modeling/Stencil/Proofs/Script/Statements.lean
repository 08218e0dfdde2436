import Stencil.Proofs.Script.Exact
import Stencil.Script.Stmt.Reader

/-!
What the readers of statements accept.

The parts of a header are phrases over tokens and have rules of their own. The statements that a
header governs may hold outputs, so they are given by what their readers answer.
-/

namespace Stencil.Script

open Reader Grammar

/-! ### Parts of headers -/

namespace Grammar

/-- What may follow the name in a binding. -/
inductive Initializer (n : ℕ) : List TokenKind → Option Expr → Prop
  | absent : Initializer n [] none
  | value {ts : List TokenKind} {e : Expr} : Derives n .assignment ts e →
      Initializer n (.punct .assign :: ts) (some e)

/-- Bindings with a comma between them. -/
inductive Bindings (n : ℕ) : List TokenKind → List (String × Option Expr) → Prop
  | one {name : String} {ts : List TokenKind} {init : Option Expr} : name ∉ reserved →
      Initializer n ts init → Bindings n (.ident name :: ts) [(name, init)]
  | more {name : String} {ts us : List TokenKind} {init : Option Expr}
      {rest : List (String × Option Expr)} : name ∉ reserved → Initializer n ts init →
      Bindings n us rest → Bindings n (.ident name :: ts ++ .punct .comma :: us)
        ((name, init) :: rest)

/-- The test or the update of a loop. -/
inductive Clause (n : ℕ) : List TokenKind → Option Expr → Prop
  | absent : Clause n [] none
  | given {ts : List TokenKind} {e : Expr} : Derives n .expression ts e → Clause n ts (some e)

/-- The first clause of a loop. An expression in it is one in parentheses. -/
inductive Initial (n : ℕ) : List TokenKind → Option Stmt → Prop
  | absent : Initial n [] none
  | declare {keyword : String} {ts : List TokenKind} {bs : List (String × Option Expr)} :
      keyword ∈ ["var", "let", "const"] → Bindings n ts bs →
      Initial n (.ident keyword :: ts) (some (.declare bs))
  | expr {ts : List TokenKind} {e : Expr} : Derives n .expression (.punct .openParen :: ts) e →
      Initial n (.punct .openParen :: ts) (some (.expr e))

end Grammar

variable {n fuel : ℕ} {items mid back rest : List Item} {ts us vs : List TokenKind} {e : Expr}

lemma expression_reads (h : Derives n .expression ts e) :
    (Level.ofDepth n).expression.Reads 11 ts e := accepts_of_derives h

lemma assignment_reads (h : Derives n .assignment ts e) :
    (Level.ofDepth n).assignment.Reads 10 ts e := accepts_of_derives h

lemma condition_of_derives (h : Derives n .expression ts e)
    (hspan : Spans items rest (.punct .openParen :: ts ++ [.punct .closeParen])) :
    condition (Level.ofDepth n) items = .ok (e, rest) := by
  obtain ⟨line, mid, rfl, hinside⟩ := spans_cons.mp hspan
  obtain ⟨mid', hts, hclose⟩ := spans_append.mp hinside
  obtain ⟨line', rfl⟩ := spans_singleton.mp hclose
  rw [condition, expect_bind, bind_of_ok (expression_reads h hts (stops_mark (by decide))),
    expect_bind]
  rfl

lemma bindingName_ident {name : String} {line : ℕ} (hname : name ∉ reserved) :
    bindingName (.token ⟨.ident name, line⟩ :: rest) = .ok (name, rest) := by
  rw [bindingName, peek?_bind]
  show (if name ∈ reserved then _ else _ : Reader String) _ = _
  rw [if_neg hname]
  rfl

/-- After the name of a binding its value is read, if there is one. -/
lemma initializer_bind {α : Type} {init : Option Expr} {f : Option Expr → Reader α}
    (h : Initializer n ts init) (hspan : Spans items rest ts) (hstop : Stops 10 rest) :
    (eat .assign >>= fun b =>
      if b = true then some <$> (Level.ofDepth n).assignment >>= fun init => f init
      else pure none >>= fun init => f init) items = f init rest := by
  cases h with
  | absent =>
    obtain rfl := spans_nil.mp hspan
    rw [eat_bind_of_ne (hstop.next?_ne (by decide))]
    rfl
  | value h =>
    obtain ⟨line, mid, rfl, hts⟩ := spans_cons.mp hspan
    rw [eat_bind_of_eq, map_eq_pure_bind, bind_assoc, bind_of_ok (assignment_reads h hts hstop)]
    rfl

lemma bindings_complete {bs : List (String × Option Expr)} (h : Bindings n ts bs)
    (hspan : Spans items rest ts) (hstop : Stops 11 rest) (hfuel : items.length < fuel) :
    bindings (Level.ofDepth n) fuel items = .ok (bs, rest) := by
  induction h generalizing items fuel with
  | one hname hinit =>
    obtain ⟨fuel, rfl⟩ := Nat.exists_eq_add_one_of_ne_zero (by omega : fuel ≠ 0)
    obtain ⟨line, mid, rfl, hts⟩ := spans_cons.mp hspan
    rw [bindings, bind_of_ok (bindingName_ident hname)]
    dsimp only
    rw [initializer_bind hinit hts (hstop.mono (by omega)),
      eat_bind_of_ne (hstop.next?_ne (by decide))]
    rfl
  | more hname hinit _ ih =>
    obtain ⟨fuel, rfl⟩ := Nat.exists_eq_add_one_of_ne_zero (by omega : fuel ≠ 0)
    rw [List.cons_append] at hspan
    obtain ⟨line, mid, rfl, hmore⟩ := spans_cons.mp hspan
    obtain ⟨mid', hts, hcomma⟩ := spans_append.mp hmore
    obtain ⟨line', mid', rfl, hus⟩ := spans_cons.mp hcomma
    have hlen := hts.length_eq
    simp only [List.length_cons] at hfuel hlen
    rw [bindings, bind_of_ok (bindingName_ident hname)]
    dsimp only
    rw [initializer_bind hinit hts (stops_mark (by decide)), eat_bind_of_eq,
      bind_of_ok (ih hus (by omega))]
    rfl

lemma declaration_complete {bs : List (String × Option Expr)} (h : Bindings n ts bs)
    (hspan : Spans items rest ts) (hstop : Stops 11 rest) :
    declaration (Level.ofDepth n) items = .ok (.declare bs, rest) := by
  have hbs : bounded (bindings (Level.ofDepth n)) items = .ok (bs, rest) :=
    bindings_complete h hspan hstop (Nat.lt_succ_self _)
  rw [declaration, bind_of_ok hbs]
  rfl

/-- A clause is read up to the mark that ends it. -/
lemma clause_complete {c : Option Expr} {mark : Punct} {line : ℕ} (h : Clause n ts c)
    (hmark : ¬ Begins (.punct mark)) (hloose : 11 ≤ mark.looseness)
    (hspan : Spans items (.token ⟨.punct mark, line⟩ :: rest) ts) :
    clause (Level.ofDepth n) mark items = .ok (c, .token ⟨.punct mark, line⟩ :: rest) := by
  cases h with
  | absent =>
    obtain rfl := spans_nil.mp hspan
    rw [clause, bind_of_ok peekIs_eq, next?, if_pos (beq_self_eq_true _)]
    rfl
  | given h =>
    have hne := h.startsWith.next?_ne hmark hspan
    rw [clause, bind_of_ok peekIs_eq, if_neg (by simpa using hne),
      bind_of_ok (expression_reads h hspan (stops_mark hloose))]
    rfl

lemma declares_of_mem {keyword : String} (h : keyword ∈ ["var", "let", "const"]) :
    declares (some (.ident keyword)) = true := by
  simpa [declares] using h

lemma initial_complete {init : Option Stmt} {line : ℕ} (h : Initial n ts init)
    (hspan : Spans items (.token ⟨.punct .semicolon, line⟩ :: rest) ts) :
    initial (Level.ofDepth n) items = .ok (init, .token ⟨.punct .semicolon, line⟩ :: rest) := by
  rw [initial, bind_of_ok peekIs_eq]
  cases h with
  | absent =>
    obtain rfl := spans_nil.mp hspan
    rw [next?, if_pos (beq_self_eq_true _)]
    rfl
  | declare hkeyword hbs =>
    obtain ⟨line', mid, rfl, hts⟩ := spans_cons.mp hspan
    rw [next?, if_neg (by simp), peek?_bind, next?, if_pos (declares_of_mem hkeyword), advance_bind,
      bind_of_ok (declaration_complete hbs hts (stops_mark (by decide)))]
    rfl
  | expr h =>
    rw [hspan.next?_eq, if_neg (by simp), peek?_bind, hspan.next?_eq, if_neg (by simp [declares]),
      bind_of_ok (expression_reads h hspan (stops_mark (by decide)))]
    rfl

/-! ### Statements -/

variable {inLoop : Bool} {s body yes : Stmt} {no : Option Stmt}

lemma ended_semicolon {line : ℕ} :
    ended s (.token ⟨.punct .semicolon, line⟩ :: rest) = .ok (s, rest) := by
  rw [ended]
  rfl

lemma statement_output {o : Output} {line : ℕ} :
    statement (n + 1) inLoop (.emit o line :: rest) = .ok (.output o, rest) := rfl

lemma statement_empty {line : ℕ} :
    statement (n + 1) inLoop (.token ⟨.punct .semicolon, line⟩ :: rest) = .ok (.empty, rest) := rfl

lemma statement_expr (h : Derives n .expression (.punct .openParen :: ts) e)
    (hspan : Spans items rest (.punct .openParen :: ts ++ [.punct .semicolon])) :
    statement (n + 1) inLoop items = .ok (.expr e, rest) := by
  obtain ⟨mid, hts, hmark⟩ := spans_append.mp hspan
  obtain ⟨line, rfl⟩ := spans_singleton.mp hmark
  have hread := expression_reads h hts (stops_mark (by decide))
  obtain ⟨line', mid, rfl, -⟩ := spans_cons.mp hts
  show expressionStatement (Level.ofDepth n) _ = _
  rw [expressionStatement, bind_of_ok hread, ended_semicolon]

lemma statement_declare {keyword : String} {bs : List (String × Option Expr)}
    (hkeyword : keyword ∈ ["var", "let", "const"]) (h : Bindings n ts bs)
    (hspan : Spans items rest (.ident keyword :: ts ++ [.punct .semicolon])) :
    statement (n + 1) inLoop items = .ok (.declare bs, rest) := by
  obtain ⟨line, mid, rfl, hmore⟩ := spans_cons.mp hspan
  obtain ⟨mid', hts, hmark⟩ := spans_append.mp hmore
  obtain ⟨line', rfl⟩ := spans_singleton.mp hmark
  have hdeclare : statement (n + 1) inLoop (.token ⟨.ident keyword, line⟩ :: mid) =
      (declaration (Level.ofDepth n) >>= ended) mid := by
    simp only [List.mem_cons, List.not_mem_nil, or_false] at hkeyword
    rcases hkeyword with rfl | rfl | rfl <;> rfl
  rw [hdeclare, bind_of_ok (declaration_complete h hts (stops_mark (by decide))), ended_semicolon]

lemma statement_leave {line line' : ℕ} :
    statement (n + 1) true (.token ⟨.ident "break", line⟩ ::
      .token ⟨.punct .semicolon, line'⟩ :: rest) = .ok (.leave, rest) := rfl

lemma statement_resume {line line' : ℕ} :
    statement (n + 1) true (.token ⟨.ident "continue", line⟩ ::
      .token ⟨.punct .semicolon, line'⟩ :: rest) = .ok (.resume, rest) := rfl

lemma statement_while (h : Derives n .expression ts e)
    (hspan : Spans items mid
      (.ident "while" :: .punct .openParen :: ts ++ [.punct .closeParen]))
    (hbody : statement n true mid = .ok (body, rest)) :
    statement (n + 1) inLoop items = .ok (.whileLoop e body, rest) := by
  obtain ⟨line, front, rfl, hcondition⟩ := spans_cons.mp hspan
  show whileRest (Level.ofDepth n) (statement n true) front = _
  rw [whileRest, bind_of_ok (condition_of_derives h hcondition), bind_of_ok hbody]
  rfl

lemma elseBranch_of_ne (h : next? rest ≠ some (.ident "else")) (stmt : Reader Stmt) :
    elseBranch stmt rest = .ok (none, rest) := by
  rw [elseBranch, peek?_bind, if_neg (by simpa using h)]
  rfl

lemma elseBranch_else {stmt : Reader Stmt} {line : ℕ} (h : stmt mid = .ok (s, rest)) :
    elseBranch stmt (.token ⟨.ident "else", line⟩ :: mid) = .ok (some s, rest) := by
  rw [elseBranch, peek?_bind, next?, if_pos (beq_self_eq_true _), advance_bind, bind_of_ok h]
  rfl

lemma statement_if (h : Derives n .expression ts e)
    (hspan : Spans items mid (.ident "if" :: .punct .openParen :: ts ++ [.punct .closeParen]))
    (hyes : statement n inLoop mid = .ok (yes, back))
    (hno : elseBranch (statement n inLoop) back = .ok (no, rest)) :
    statement (n + 1) inLoop items = .ok (.branch e yes no, rest) := by
  obtain ⟨line, front, rfl, hcondition⟩ := spans_cons.mp hspan
  show branchRest (Level.ofDepth n) (statement n inLoop) front = _
  rw [branchRest, bind_of_ok (condition_of_derives h hcondition), bind_of_ok hyes, bind_of_ok hno]
  rfl

lemma statement_for {init : Option Stmt} {test update : Option Expr} (hinit : Initial n ts init)
    (htest : Clause n us test) (hupdate : Clause n vs update)
    (hspan : Spans items mid (.ident "for" :: .punct .openParen :: ts ++ .punct .semicolon :: us ++
      .punct .semicolon :: vs ++ [.punct .closeParen]))
    (hbody : statement n true mid = .ok (body, rest)) :
    statement (n + 1) inLoop items = .ok (.forLoop init test update body, rest) := by
  simp only [List.cons_append, List.append_assoc, spans_cons, spans_append, spans_nil] at hspan
  obtain ⟨line, _, rfl, line₁, front, rfl, _, hts, line₂, _, rfl, _, hus, line₃, _, rfl, _, hvs,
    line₄, _, rfl, rfl⟩ := hspan
  have hrest : statement (n + 1) inLoop (.token ⟨.ident "for", line⟩ ::
      .token ⟨.punct .openParen, line₁⟩ :: front) = forRest (Level.ofDepth n) (statement n true)
        (.token ⟨.punct .openParen, line₁⟩ :: front) := rfl
  rw [hrest, forRest, expect_bind, bind_of_ok (initial_complete hinit hts), expect_bind,
    bind_of_ok (clause_complete htest (by simp [Begins]) (by decide) hus), expect_bind,
    bind_of_ok (clause_complete hupdate (by simp [Begins]) (by decide) hvs), expect_bind,
    bind_of_ok hbody]
  rfl

/-! ### Lists of statements -/

/-- The reader of statements takes the items one statement after the other, none of which begins
with a closing brace. -/
inductive Runs (stmt : Reader Stmt) : List Item → List Item → List Stmt → Prop
  | nil {rest : List Item} : Runs stmt rest rest []
  | cons {items mid rest : List Item} {s : Stmt} {ss : List Stmt} :
      items ≠ [] → next? items ≠ some (.punct .closeBrace) → stmt items = .ok (s, mid) →
      mid.length < items.length → Runs stmt mid rest ss → Runs stmt items rest (s :: ss)

variable {ss : List Stmt}

lemma blockRest_of_runs {stmt : Reader Stmt} {line : ℕ}
    (h : Runs stmt items (.token ⟨.punct .closeBrace, line⟩ :: rest) ss)
    (hfuel : items.length < fuel) : blockRest stmt fuel items = .ok (ss, rest) := by
  generalize hend : Item.token ⟨.punct .closeBrace, line⟩ :: rest = back at h
  induction h generalizing fuel with
  | nil =>
    obtain ⟨fuel, rfl⟩ := Nat.exists_eq_add_one_of_ne_zero (by omega : fuel ≠ 0)
    rw [← hend, blockRest, eat_bind_of_eq]
    rfl
  | cons hne hbrace hs hlen _ ih =>
    obtain ⟨fuel, rfl⟩ := Nat.exists_eq_add_one_of_ne_zero (by omega : fuel ≠ 0)
    rw [blockRest, eat_bind_of_ne hbrace, bind_of_ok (get_ok.mpr ⟨rfl, rfl⟩),
      if_neg (by simpa using hne), bind_of_ok hs, bind_of_ok (ih (by omega) hend)]
    rfl

lemma statement_block {line line' : ℕ}
    (h : Runs (statement n inLoop) items (.token ⟨.punct .closeBrace, line'⟩ :: rest) ss) :
    statement (n + 1) inLoop (.token ⟨.punct .openBrace, line⟩ :: items) =
      .ok (.block ss, rest) := by
  have hbody : bounded (blockRest (statement n inLoop)) items = .ok (ss, rest) :=
    blockRest_of_runs h (Nat.lt_succ_self _)
  have hblock : statement (n + 1) inLoop (.token ⟨.punct .openBrace, line⟩ :: items) =
      (do return Stmt.block (← bounded (blockRest (statement n inLoop)))) items := rfl
  rw [hblock, bind_of_ok hbody]
  rfl

/-- The items are the outputs, on whatever lines. -/
def Emits (items : List Item) (os : List Output) : Prop :=
  List.Forall₂ (fun i o => ∃ line, i = .emit o line) items os

/-- Each output is a statement of its own. -/
lemma Emits.runs {os : List Output} (h : Emits items os) (rest : List Item) :
    Runs (statement (n + 1) inLoop) (items ++ rest) rest (os.map .output) := by
  induction h with
  | nil => exact .nil
  | cons hi _ ih =>
    obtain ⟨line, rfl⟩ := hi
    exact .cons (by simp) (by simp [next?]) statement_output (Nat.lt_succ_self _) ih

lemma statements_of_runs (h : Runs (statement maxNesting false) items [] ss)
    (hfuel : items.length < fuel) : statements fuel items = .ok (ss, []) := by
  generalize hend : ([] : List Item) = back at h
  induction h generalizing fuel with
  | nil =>
    obtain ⟨fuel, rfl⟩ := Nat.exists_eq_add_one_of_ne_zero (by omega : fuel ≠ 0)
    rw [← hend]
    rfl
  | cons hne hbrace hs hlen _ ih =>
    obtain ⟨fuel, rfl⟩ := Nat.exists_eq_add_one_of_ne_zero (by omega : fuel ≠ 0)
    rw [statements, bind_of_ok (get_ok.mpr ⟨rfl, rfl⟩), if_neg (by simpa using hne),
      bind_of_ok peekIs_eq, if_neg (by simpa using hbrace), bind_of_ok hs,
      bind_of_ok (ih (by omega) hend)]
    rfl

/-- All items are read as a program. -/
lemma runOn_of_runs (h : Runs (statement maxNesting false) items [] ss) :
    (bounded statements).runOn items = .ok ss :=
  runOn_ok.mpr ⟨[], statements_of_runs h (Nat.lt_succ_self _)⟩

end Stencil.Script
