import Stencil.Proofs.Script.Printing
import Stencil.Proofs.Script.Statements

/-!
Reading back what was printed.

A program is printed without loss: its statements are read from their items one after the other,
each up to its last item. Only a branch without another side could take more than its own items,
and no `else` follows it where every side that another one follows is a block.
-/

namespace Stencil.Script

open Reader Grammar

/-! ### Programs that can be printed -/

/-- The expression is read from some tokens. -/
def Expr.Readable (e : Expr) : Prop :=
  ∃ tokens : List Token, completeExpression.runOn (tokens.map .token) = .ok e

/-- A statement, apart from the statements in it, is one that can be written. -/
structure Stmt.Printable (s : Stmt) : Prop where
  /-- Loops begin with a declaration or an expression, if with anything. -/
  clause : ∀ init ∈ s.init?, init.IsClause
  declared : ∀ name ∈ s.declared, name ∉ reserved
  bindings : s ≠ .declare []
  readable : ∀ e ∈ s.exprs, e.Readable
  /-- A side that another one follows is a block. -/
  braced : ∀ test yes no, s = .branch test yes (some no) → ∃ body, yes = .block body

/-- All statements can be written, and each jump has its loop. -/
structure Program.Printable (p : Program) : Prop where
  stmts : ∀ s ∈ p.stmts, s.Printable
  jumps : ∀ s ∈ p.body, s.jumpsOut = false

mutual

/-- How deep statements are nested. A statement that holds none has height one. -/
def Stmt.height : Stmt → ℕ
  | .block body => 1 + heightAll body
  | .branch _ yes no => 1 + max yes.height (heightOption no)
  | .forLoop init _ _ body => 1 + max (heightOption init) body.height
  | .whileLoop _ body => 1 + body.height
  | .output _ | .expr _ | .declare _ | .leave | .resume | .empty => 1

def Stmt.heightOption : Option Stmt → ℕ
  | none => 0
  | some s => s.height

def Stmt.heightAll : List Stmt → ℕ
  | [] => 0
  | s :: rest => max s.height (heightAll rest)

end

def Program.height (p : Program) : ℕ := Stmt.heightAll p.body

/-- How deep the deepest expression is. A name or a literal has height one. -/
def Program.exprHeight (p : Program) : ℕ := Expr.levelsAll 1 (p.stmts.flatMap Stmt.exprs)

variable {n m line : ℕ} {items mid rest : List Item} {e : Expr} {s : Stmt} {ss : List Stmt}
  {inLoop : Bool}

lemma Expr.Readable.prints (h : e.Readable) : Prints e := by
  obtain ⟨tokens, h⟩ := h
  exact prints_of_derives (derives_of_completeExpression h)

namespace Stmt

lemma heightAll_le : heightAll ss ≤ n ↔ ∀ s ∈ ss, s.height ≤ n := by
  induction ss with
  | nil => simp [heightAll]
  | cons s ss ih => simp [heightAll, ih]

lemma height_child_lt {c : Stmt} (h : c ∈ s.children) : c.height < s.height := by
  cases s with
  | block body =>
    have hle := heightAll_le.mp (Nat.le_refl (heightAll body)) c h
    simp only [height]
    omega
  | branch test yes no =>
    simp only [height]
    rcases List.mem_cons.mp h with rfl | hno
    · omega
    · obtain rfl := Option.mem_def.mp (Option.mem_toList.mp hno)
      simp only [heightOption]
      omega
  | forLoop init test update body =>
    simp only [height]
    rcases List.mem_append.mp h with hinit | hbody
    · obtain rfl := Option.mem_def.mp (Option.mem_toList.mp hinit)
      simp only [heightOption]
      omega
    · obtain rfl := List.mem_singleton.mp hbody
      omega
  | whileLoop test body =>
    obtain rfl := List.mem_singleton.mp h
    simp only [height]
    omega
  | output | expr | declare | leave | resume | empty => cases h

lemma height_pos (s : Stmt) : 0 < s.height := by
  cases s <;> simp only [height] <;> omega

end Stmt

/-! ### Printed headers -/

/-- What is nested in a statement nests no expression deeper than `m`. -/
def Stmt.Fits (m : ℕ) (s : Stmt) : Prop := s.Printable ∧ ∀ e ∈ s.exprs, e.levels 1 ≤ m

lemma Stmt.Fits.prints (h : s.Fits m) : ∀ e ∈ s.exprs, Prints e := fun e he =>
  (h.1.readable e he).prints

lemma derives_enclosed (h : Prints e) (hn : 2 * e.levels 1 ≤ n) :
    Derives n .expression (enclosed e.tokens) e := .single (h.assignment hn)

lemma bindings_printed {bs : List (String × Option Expr)} (hne : bs ≠ [])
    (hnames : ∀ p ∈ bs, p.1 ∉ reserved)
    (hvalues : ∀ name e, (name, some e) ∈ bs → Prints e ∧ 2 * e.levels 1 ≤ n) :
    Bindings n (separated (bs.map bindingTokens)) bs := by
  have hinit (p : String × Option Expr) (hp : p ∈ bs) :
      ∃ ts, bindingTokens p = .ident p.1 :: ts ∧ Initializer n ts p.2 := by
    rcases p with ⟨name, _ | e⟩
    · exact ⟨[], rfl, .absent⟩
    · obtain ⟨hprints, hlevels⟩ := hvalues name e hp
      exact ⟨_, rfl, .value (hprints.assignment hlevels)⟩
  induction bs with
  | nil => exact (hne rfl).elim
  | cons p bs ih =>
    obtain ⟨ts, htokens, hts⟩ := hinit p List.mem_cons_self
    have hname := hnames p List.mem_cons_self
    cases bs with
    | nil =>
      simp only [List.map_cons, List.map_nil, separated, List.flatMap_nil, List.append_nil, htokens]
      exact .one hname hts
    | cons q bs =>
      have hmore := ih (by simp) (fun p hp => hnames p (List.mem_cons_of_mem _ hp))
        (fun name e he => hvalues name e (List.mem_cons_of_mem _ he))
        (fun p hp => hinit p (List.mem_cons_of_mem _ hp))
      have heq : separated ((p :: q :: bs).map bindingTokens) =
          .ident p.1 :: ts ++ .punct .comma :: separated ((q :: bs).map bindingTokens) := by
        simp only [List.map_cons, separated, List.flatMap_cons, htokens, List.cons_append]
      rw [heq]
      exact .more hname hts hmore

lemma declaration_printed {bs : List (String × Option Expr)} (h : (Stmt.declare bs).Fits m)
    (hn : 2 * m ≤ n) : Bindings n (separated (bs.map bindingTokens)) bs := by
  refine bindings_printed (fun hnil => h.1.bindings (by rw [hnil]))
    (fun p hp => h.1.declared p.1 (List.mem_map.mpr ⟨p, hp, rfl⟩)) fun name e he => ?_
  have hmem : e ∈ (Stmt.declare bs).exprs := List.mem_filterMap.mpr ⟨_, he, rfl⟩
  have hlevels := h.2 e hmem
  exact ⟨h.prints e hmem, by omega⟩

lemma clause_printed {c : Option Expr} (h : ∀ e ∈ c, Prints e ∧ 2 * e.levels 1 ≤ n + 1) :
    Clause n (clauseTokens c) c := by
  cases c with
  | none => exact .absent
  | some e =>
    obtain ⟨hprints, hlevels⟩ := h e rfl
    exact .given (hprints n hlevels)

lemma initial_printed {init : Option Stmt} (hclause : ∀ s ∈ init, s.IsClause)
    (h : ∀ s ∈ init, s.Fits m) (hn : 2 * m ≤ n) : Initial n (initTokens init) init := by
  cases init with
  | none => exact .absent
  | some s =>
    have hfits := h s rfl
    rcases hclause s rfl with ⟨bs, rfl⟩ | ⟨e, rfl⟩
    · exact .declare (by simp) (declaration_printed hfits hn)
    · have hlevels := hfits.2 e List.mem_cons_self
      exact .expr (derives_enclosed (hfits.prints e List.mem_cons_self) (by omega))

/-! ### Printed statements -/

/-- A statement begins neither as the other side of a branch nor with the end of a block. -/
lemma items_begin (s : Stmt) (line : ℕ) (rest : List Item) :
    s.items line ++ rest ≠ [] ∧ next? (s.items line ++ rest) ≠ some (.ident "else") ∧
      next? (s.items line ++ rest) ≠ some (.punct .closeBrace) := by
  cases s <;> simp [Stmt.items, tokensAt, enclosed, declarationTokens, next?]

lemma length_lt_items (s : Stmt) (line : ℕ) (rest : List Item) :
    rest.length < (s.items line ++ rest).length := by
  have hne : s.items line ≠ [] := by
    simpa using (items_begin s line []).1
  have hpos := List.length_pos_iff.mpr hne
  rw [List.length_append]
  omega

/-- The statement is read back from its items, whatever comes after them that is no other side for
it. -/
def Stmt.ReadsBack (n line : ℕ) (inLoop : Bool) (s : Stmt) : Prop :=
  ∀ rest, (∃ body, s = .block body) ∨ next? rest ≠ some (.ident "else") →
    statement n inLoop (s.items line ++ rest) = .ok (s, rest)

/-- Statements that are read back one by one are read back as a list. -/
lemma runs_items (h : ∀ s ∈ ss, s.ReadsBack n line inLoop)
    (hrest : next? rest ≠ some (.ident "else")) :
    Runs (statement n inLoop) (Stmt.itemsAll line ss ++ rest) rest ss ∧
      next? (Stmt.itemsAll line ss ++ rest) ≠ some (.ident "else") := by
  induction ss with
  | nil => exact ⟨.nil, hrest⟩
  | cons s ss ih =>
    obtain ⟨hruns, hnext⟩ := ih fun s hs => h s (List.mem_cons_of_mem _ hs)
    obtain ⟨hne, helse, hbrace⟩ := items_begin s line (Stmt.itemsAll line ss ++ rest)
    have hread := h s List.mem_cons_self _ (.inr hnext)
    rw [Stmt.itemsAll, List.append_assoc]
    exact ⟨.cons hne hbrace hread (length_lt_items s line _) hruns, helse⟩

namespace Stmt.ReadsBack

variable {body : Stmt} {test : Expr}

lemma block (h : ∀ s ∈ ss, s.ReadsBack n line inLoop) :
    (Stmt.block ss).ReadsBack (n + 1) line inLoop := by
  intro rest _
  have hclose : next? (.token ⟨.punct .closeBrace, line⟩ :: rest) ≠ some (.ident "else") := by
    simp [next?]
  rw [Stmt.items, List.append_assoc, List.append_assoc]
  exact statement_block (runs_items h hclose).1

/-- An `else` comes after the first side only where that is a block. -/
lemma branch {yes : Stmt} {no : Option Stmt} (htest : Derives n .expression test.tokens test)
    (hyes : yes.ReadsBack n line inLoop) (hno : ∀ s ∈ no, s.ReadsBack n line inLoop)
    (hbraced : no.isSome → ∃ body, yes = .block body) :
    (Stmt.branch test yes no).ReadsBack (n + 1) line inLoop := by
  intro rest hrest
  have helse := hrest.resolve_left (by simp)
  rw [Stmt.items, List.append_assoc, List.append_assoc]
  cases no with
  | none =>
    rw [Stmt.itemsElse, List.nil_append]
    exact statement_if htest spans_tokensAt (hyes rest (.inr helse)) (elseBranch_of_ne helse _)
  | some no =>
    rw [Stmt.itemsElse, List.append_assoc]
    exact statement_if htest spans_tokensAt (hyes _ (.inl (hbraced rfl)))
      (elseBranch_else (hno no rfl rest (.inr helse)))

lemma forLoop {init : Option Stmt} {test update : Option Expr}
    (hinit : Initial n (initTokens init) init)
    (htest : Clause n (clauseTokens test) test) (hupdate : Clause n (clauseTokens update) update)
    (hbody : body.ReadsBack n line true) :
    (Stmt.forLoop init test update body).ReadsBack (n + 1) line inLoop := by
  intro rest hrest
  have helse := hrest.resolve_left (by simp)
  rw [Stmt.items, List.append_assoc]
  exact statement_for hinit htest hupdate spans_tokensAt (hbody rest (.inr helse))

lemma whileLoop (htest : Derives n .expression test.tokens test)
    (hbody : body.ReadsBack n line true) :
    (Stmt.whileLoop test body).ReadsBack (n + 1) line inLoop := by
  intro rest hrest
  have helse := hrest.resolve_left (by simp)
  rw [Stmt.items, List.append_assoc]
  exact statement_while htest spans_tokensAt (hbody rest (.inr helse))

end Stmt.ReadsBack

/-- **Printed statements** are read back. -/
theorem statement_items (hfits : ∀ x ∈ s.parts, x.Fits m)
    (hjump : s.jumpsOut = true → inLoop = true) (hn : s.height + 2 * m ≤ n) :
    s.ReadsBack n line inLoop := by
  induction n generalizing s inLoop with
  | zero =>
    have hpos := s.height_pos
    omega
  | succ n ih =>
    obtain ⟨hself, hchildren⟩ := Stmt.forall_mem_parts.mp hfits
    have hpos := s.height_pos
    have hexpr (e : Expr) (he : e ∈ s.exprs) : Prints e ∧ 2 * e.levels 1 ≤ n := by
      have hlevels := hself.2 e he
      exact ⟨hself.prints e he, by omega⟩
    have hchild {inLoop : Bool} (c : Stmt) (hc : c ∈ s.children)
        (hj : c.jumpsOut = true → inLoop = true) : c.ReadsBack n line inLoop := by
      have hlt := Stmt.height_child_lt hc
      exact ih (hchildren c hc) hj (by omega)
    cases s with
    | output o => exact fun _ _ => statement_output
    | expr e =>
      obtain ⟨hprints, hlevels⟩ := hexpr e List.mem_cons_self
      exact fun _ _ => statement_expr (derives_enclosed hprints hlevels) spans_tokensAt
    | declare bs =>
      have hbindings := declaration_printed hself (by omega : 2 * m ≤ n)
      exact fun _ _ => statement_declare (by simp) hbindings spans_tokensAt
    | block body =>
      refine .block fun s hs => hchild s hs fun hj => hjump ?_
      rw [Stmt.jumpsOut, Stmt.jumpsOutAny_eq]
      exact List.any_eq_true.mpr ⟨s, hs, hj⟩
    | branch test yes no =>
      obtain ⟨hprints, hlevels⟩ := hexpr test List.mem_cons_self
      have hyes : yes.ReadsBack n line inLoop := hchild yes List.mem_cons_self fun hj =>
        hjump (by rw [Stmt.jumpsOut, hj, Bool.true_or])
      have hno (s : Stmt) (hs : s ∈ no) : s.ReadsBack n line inLoop := by
        obtain rfl := Option.mem_def.mp hs
        exact hchild s (List.mem_cons_of_mem _ List.mem_cons_self) fun hj =>
          hjump (by rw [Stmt.jumpsOut, Stmt.jumpsOutOption, hj, Bool.or_true])
      refine .branch (hprints n (by omega)) hyes hno fun hsome => ?_
      obtain ⟨s, rfl⟩ := Option.isSome_iff_exists.mp hsome
      exact hself.1.braced test yes s rfl
    | forLoop init test update body =>
      have hinit (s : Stmt) (hs : s ∈ init) : s.Fits m := by
        have hmem : s ∈ (Stmt.forLoop init test update body).children :=
          List.mem_append_left _ (Option.mem_toList.mpr hs)
        exact (Stmt.forall_mem_parts.mp (hchildren s hmem)).1
      have hclause (e : Expr) (he : e ∈ (Stmt.forLoop init test update body).exprs) :
          Prints e ∧ 2 * e.levels 1 ≤ n + 1 := by
        obtain ⟨hprints, hlevels⟩ := hexpr e he
        exact ⟨hprints, by omega⟩
      have htest := clause_printed fun e he =>
        hclause e (List.mem_append_left _ (Option.mem_toList.mpr he))
      have hupdate := clause_printed fun e he =>
        hclause e (List.mem_append_right _ (Option.mem_toList.mpr he))
      exact .forLoop (initial_printed hself.1.clause hinit (by omega)) htest hupdate
        (hchild body (List.mem_append_right _ List.mem_cons_self) fun _ => rfl)
    | whileLoop test body =>
      obtain ⟨hprints, hlevels⟩ := hexpr test List.mem_cons_self
      exact .whileLoop (hprints n (by omega)) (hchild body List.mem_cons_self fun _ => rfl)
    | leave =>
      obtain rfl := hjump rfl
      exact fun _ _ => statement_leave
    | resume =>
      obtain rfl := hjump rfl
      exact fun _ _ => statement_resume
    | empty => exact fun _ _ => statement_empty

/-! ### Programs -/

/-- **Round trip**: a program is read back from the items that it is printed as, if it nests its
statements and expressions no deeper than the reader does. -/
theorem parse_items (p : Program) (hp : p.Printable)
    (hn : p.height + 2 * p.exprHeight ≤ maxNesting) (line : ℕ) :
    Program.mk <$> (bounded statements).runOn (p.items line) = .ok p := by
  have hfits : ∀ x ∈ p.stmts, x.Fits p.exprHeight := by
    intro x hx
    have hle := Expr.levelsAll_le.mp (Nat.le_refl p.exprHeight)
    exact ⟨hp.stmts x hx, fun e he => hle e (List.mem_flatMap.mpr ⟨x, hx, he⟩)⟩
  have hread (s : Stmt) (hs : s ∈ p.body) : s.ReadsBack maxNesting line false := by
    have hheight := Stmt.heightAll_le.mp (Nat.le_refl p.height) s hs
    refine statement_items (fun x hx => hfits x (List.mem_flatMap.mpr ⟨s, hs, hx⟩)) (fun hj => ?_)
      (by omega)
    rw [hp.jumps s hs] at hj
    cases hj
  have hruns := (runs_items hread (by simp [next?] : next? [] ≠ some (.ident "else"))).1
  rw [List.append_nil] at hruns
  have hbody : (bounded statements).runOn (p.items line) = .ok p.body := runOn_of_runs hruns
  rw [hbody]
  rfl

/-- A branch with a text on one side and a loop on the other. -/
def branching : Program :=
  ⟨[.branch (.ident "a") (.block [.output (.literal "x")])
    (some (.whileLoop (.ident "a") .leave))]⟩

lemma readable_ident {name : String} (hr : name ∉ reserved) (hc : ∀ v, ¬ Constant name v) :
    (Expr.ident name).Readable := by
  have hd : Derives 1 .expression [.ident name] (.ident name) :=
    .single (.unassigned (.unconditional ((Derives.ident hr hc).operators (by omega))))
  exact ⟨[⟨.ident name, 1⟩], completeExpression_of_derives (hd.mono (by decide))⟩

lemma printable_branching : branching.Printable := by
  have ha : (Expr.ident "a").Readable :=
    readable_ident (by decide) fun _ h => by simpa using h.mem
  refine ⟨?_, by simp [branching, Stmt.jumpsOut, Stmt.jumpsOutOption, Stmt.jumpsOutAny]⟩
  intro s hs
  simp only [Program.stmts, branching, Stmt.parts, Stmt.partsAll_eq, Stmt.partsOption_eq,
    List.flatMap_cons, List.flatMap_nil, Option.toList, List.append_nil, List.mem_cons,
    List.mem_append, List.not_mem_nil, or_false] at hs
  rcases hs with rfl | (rfl | rfl) | rfl | rfl <;>
    constructor <;> simp [Stmt.init?, Stmt.declared, Stmt.exprs, Output.exprs, ha]

theorem parse_items_branching : branching.Printable ∧
    branching.height + 2 * branching.exprHeight ≤ maxNesting ∧
    Program.mk <$> (bounded statements).runOn (branching.items 1) = .ok branching :=
  ⟨printable_branching, by decide, parse_items branching printable_branching (by decide) 1⟩

end Stencil.Script
