import Mathlib.Order.MinMax
import Stencil.Proofs.Script.Exact
import Stencil.Proofs.Script.Formed
import Stencil.Proofs.Script.Parts

/-!
How deep programs are.

The readers count what is nested, but a chain of operators, members or indices is read in a loop
and grows the expression at its left without being counted. So a program that was read is bounded
in depth apart from such chains, and not with them.
-/

namespace Stencil.Script

open Grammar

/-! ### Levels -/

mutual

/-- The levels of an expression, as an evaluation goes down in it. A step along a chain, to the
left operand of an operator or to the target of a member or an index, counts as `step`. -/
def Expr.levels (step : ℕ) : Expr → ℕ
  | .literal _ | .ident _ => 1
  | .array items | .call _ items | .sequence items => 1 + levelsAll step items
  | .object entries => 1 + levelsEntries step entries
  | .member target _ => step + target.levels step
  | .index target key => max (step + target.levels step) (1 + key.levels step)
  | .unary _ operand | .update _ _ operand => 1 + operand.levels step
  | .binary _ left right | .logical _ left right =>
    max (step + left.levels step) (1 + right.levels step)
  | .conditional test yes no =>
    1 + max (test.levels step) (max (yes.levels step) (no.levels step))
  | .assign _ target value => 1 + max (target.levels step) (value.levels step)

def Expr.levelsAll (step : ℕ) : List Expr → ℕ
  | [] => 0
  | e :: rest => max (e.levels step) (levelsAll step rest)

def Expr.levelsEntries (step : ℕ) : List (String × Expr) → ℕ
  | [] => 0
  | (_, e) :: rest => max (e.levels step) (levelsEntries step rest)

end

mutual

/-- The levels of a statement, as a run goes down in it and in its expressions. -/
def Stmt.levels (step : ℕ) : Stmt → ℕ
  | .output o => 1 + Expr.levelsAll step o.exprs
  | .expr e => 1 + e.levels step
  | .declare bindings => 1 + Expr.levelsAll step (bindings.filterMap (·.2))
  | .block body => 1 + levelsAll step body
  | .branch test yes no =>
    1 + max (test.levels step) (max (yes.levels step) (levelsOption step no))
  | .forLoop init test update body =>
    1 + max (Expr.levelsAll step (test.toList ++ update.toList))
      (max (levelsOption step init) (body.levels step))
  | .whileLoop test body => 1 + max (test.levels step) (body.levels step)
  | .leave | .resume | .empty => 1

def Stmt.levelsOption (step : ℕ) : Option Stmt → ℕ
  | none => 0
  | some s => s.levels step

def Stmt.levelsAll (step : ℕ) : List Stmt → ℕ
  | [] => 0
  | s :: rest => max (s.levels step) (levelsAll step rest)

end

/-- How far a run goes down at most. -/
def Program.depth (p : Program) : ℕ := Stmt.levelsAll 1 p.body

/-- The depth apart from chains. -/
def Program.nesting (p : Program) : ℕ := Stmt.levelsAll 0 p.body

variable {step n : ℕ}

namespace Expr

lemma levelsAll_le {es : List Expr} : levelsAll step es ≤ n ↔ ∀ e ∈ es, e.levels step ≤ n := by
  induction es with
  | nil => simp [levelsAll]
  | cons e es ih => simp [levelsAll, ih]

lemma levelsEntries_le {es : List (String × Expr)} :
    levelsEntries step es ≤ n ↔ ∀ e ∈ es, e.2.levels step ≤ n := by
  induction es with
  | nil => simp [levelsEntries]
  | cons e es ih => simp [levelsEntries, ih]

/-- An expression is one level above those it is made of, or less along a chain. -/
lemma levels_le_succ {e : Expr} (hstep : step ≤ 1) (h : ∀ c ∈ e.children, c.levels step ≤ n) :
    e.levels step ≤ n + 1 := by
  cases e with
  | literal | ident =>
    simp only [levels]
    omega
  | array items | call _ items | sequence items =>
    have hall : levelsAll step items ≤ n := levelsAll_le.mpr h
    simp only [levels]
    omega
  | object entries =>
    have hall : levelsEntries step entries ≤ n := levelsEntries_le.mpr (List.forall_mem_map.mp h)
    simp only [levels]
    omega
  | member target | unary _ target | update _ _ target =>
    have htarget : target.levels step ≤ n := h target List.mem_cons_self
    simp only [levels]
    omega
  | index left right | binary _ left right | logical _ left right | assign _ left right =>
    have hleft : left.levels step ≤ n := h left List.mem_cons_self
    have hright : right.levels step ≤ n := h right (List.mem_cons_of_mem _ List.mem_cons_self)
    simp only [levels]
    omega
  | conditional test yes no =>
    have htest : test.levels step ≤ n := h test List.mem_cons_self
    have hyes : yes.levels step ≤ n := h yes (List.mem_cons_of_mem _ List.mem_cons_self)
    have hno : no.levels step ≤ n := h no (by simp [children])
    simp only [levels]
    omega

end Expr

namespace Stmt

lemma levelsOption_le {s : Option Stmt} :
    levelsOption step s ≤ n ↔ ∀ c ∈ s, c.levels step ≤ n := by
  cases s <;> simp [levelsOption]

lemma levelsAll_le {ss : List Stmt} : levelsAll step ss ≤ n ↔ ∀ s ∈ ss, s.levels step ≤ n := by
  induction ss with
  | nil => simp [levelsAll]
  | cons s ss ih => simp [levelsAll, ih]

/-- A statement is one level above its expressions and the statements it is made of. -/
lemma levels_le_succ {s : Stmt} (hexprs : ∀ e ∈ s.exprs, e.levels step ≤ n)
    (hchildren : ∀ c ∈ s.children, c.levels step ≤ n) : s.levels step ≤ n + 1 := by
  cases s with
  | output o =>
    have ho : Expr.levelsAll step o.exprs ≤ n := Expr.levelsAll_le.mpr hexprs
    simp only [levels]
    omega
  | expr e =>
    have he : e.levels step ≤ n := hexprs e List.mem_cons_self
    simp only [levels]
    omega
  | declare bindings =>
    have hb : Expr.levelsAll step (bindings.filterMap (·.2)) ≤ n := Expr.levelsAll_le.mpr hexprs
    simp only [levels]
    omega
  | block body =>
    have hbody : levelsAll step body ≤ n := levelsAll_le.mpr hchildren
    simp only [levels]
    omega
  | branch test yes no =>
    have htest : test.levels step ≤ n := hexprs test List.mem_cons_self
    have hyes : yes.levels step ≤ n := hchildren yes List.mem_cons_self
    have hno : levelsOption step no ≤ n := levelsOption_le.mpr fun c hc =>
      hchildren c (List.mem_cons_of_mem _ (Option.mem_toList.mpr hc))
    simp only [levels]
    omega
  | forLoop init test update body =>
    have hheader : Expr.levelsAll step (test.toList ++ update.toList) ≤ n :=
      Expr.levelsAll_le.mpr hexprs
    have hinit : levelsOption step init ≤ n := levelsOption_le.mpr fun c hc =>
      hchildren c (List.mem_append_left _ (Option.mem_toList.mpr hc))
    have hbody : body.levels step ≤ n := hchildren body (List.mem_append_right _ List.mem_cons_self)
    simp only [levels]
    omega
  | whileLoop test body =>
    have htest : test.levels step ≤ n := hexprs test List.mem_cons_self
    have hbody : body.levels step ≤ n := hchildren body List.mem_cons_self
    simp only [levels]
    omega
  | leave | resume | empty =>
    simp only [levels]
    omega

end Stmt

/-! ### The bound -/

/-- How many levels a phrase takes beyond those of the assignments nested in it. -/
def Grammar.Phrase.slack : Phrase → ℕ
  | .assignment | .operand => 0
  | .expression | .primary => 1
  | .stepped => 2
  | .unary => 3
  | .operators k => 9 - k
  | .conditional => 10

lemma Grammar.Joins.levels {k : ℕ} {p : Punct} {join : Expr → Expr → Expr} (h : Joins k p join)
    (left right : Expr) :
    (join left right).levels step = max (step + left.levels step) (1 + right.levels step) := by
  cases h <;> rfl

/-- Each assignment or operand that is nested adds eleven levels at most: its own and those of a
conditional, of six precedences, and of an operator, a step and a list before the next one. -/
lemma Grammar.Derives.levels_le {p : Phrase} {ts : List TokenKind} {e : Expr}
    (h : Derives n p ts e) : e.levels 0 ≤ 11 * n + p.slack := by
  induction h with
  | single _ ih | unassigned _ ih | unconditional _ ih | tighter _ _ ih | unjoined _ ih
  | bare _ ih | operand _ ih | unstepped _ ih | group _ ih =>
    simp only [Phrase.slack] at ih ⊢
    omega
  | sequence _ _ _ ih ihs =>
    exact Expr.levels_le_succ (Nat.zero_le 1)
      (List.forall_mem_cons.mpr ⟨ih, List.forall_mem_map.mpr ihs⟩)
  | assign _ _ _ _ iht ihv =>
    simp only [Expr.levels, Phrase.slack] at iht ihv ⊢
    omega
  | conditional _ _ _ iht ihy ihn =>
    simp only [Expr.levels, Phrase.slack] at iht ihy ihn ⊢
    omega
  | joined hj _ _ ihl ihr =>
    -- the chain goes on at its left for free, and its right side is one precedence tighter
    have hk := hj.lt
    simp only [hj.levels, Phrase.slack] at ihl ihr ⊢
    omega
  | prefixed _ _ ih | updateBefore _ _ _ ih | updateAfter _ _ _ ih | member _ _ ih =>
    simp only [Expr.levels, Phrase.slack] at ih ⊢
    omega
  | index _ _ ih ihk =>
    simp only [Expr.levels, Phrase.slack] at ih ihk ⊢
    omega
  | @call n _ _ name args _ _ _ _ ihs =>
    have hcall : (Expr.call name (args.map (·.value))).levels 0 ≤ 11 * n + 1 :=
      Expr.levels_le_succ (Nat.zero_le 1) (List.forall_mem_map.mpr ihs)
    simp only [Phrase.slack]
    omega
  | number | text | constant | ident =>
    simp only [Expr.levels, Phrase.slack]
    omega
  | array _ _ ihs => exact Expr.levels_le_succ (Nat.zero_le 1) (List.forall_mem_map.mpr ihs)
  | object _ _ _ ihs =>
    exact Expr.levels_le_succ (Nat.zero_le 1)
      (List.forall_mem_map.mpr (List.forall_mem_map.mpr ihs))

lemma Expr.DerivedAs.levels_le {e : Expr} (h : e.DerivedAs n .expression) :
    e.levels 0 ≤ 11 * n + 1 := by
  obtain ⟨ts, hd⟩ := h
  exact hd.levels_le

lemma Stmt.Simple.levels_le {s : Stmt} (h : s.Simple n) : s.levels 0 ≤ 11 * n + 2 := by
  refine Stmt.levels_le_succ (fun e he => (h.derived e he).levels_le) fun c hc => ?_
  rcases h.isClause with ⟨_, rfl⟩ | ⟨_, rfl⟩ <;> cases hc

/-- Each statement that is nested adds one level at most. -/
lemma Stmt.Formed.levels_le {inLoop : Bool} {s : Stmt} (h : Stmt.Formed n inLoop s)
    (hn : n ≤ maxNesting) : s.levels 0 ≤ n + (11 * maxNesting + 1) := by
  -- all that is known of a child is that it has fewer levels left
  induction n using Nat.strong_induction_on generalizing inLoop s with
  | _ n ih =>
    cases n with
    | zero => cases h
    | succ n =>
      have hexprs : ∀ e ∈ s.exprs, e.levels 0 ≤ n + (11 * maxNesting + 1) := by
        intro e he
        have hle := (h.derived hn e he).levels_le
        omega
      have hchildren : ∀ c ∈ s.children, c.levels 0 ≤ n + (11 * maxNesting + 1) := by
        intro c hc
        obtain ⟨m, hm, hs | ⟨b, hf⟩⟩ := h.child c hc
        · have hle := hs.levels_le
          omega
        · have hle := ih m hm hf (by omega)
          omega
      have hle := Stmt.levels_le_succ hexprs hchildren
      omega

/-! ### Chains -/

/-- The text `a+a+…+a` with a number of signs. -/
def sumText : ℕ → List Char
  | 0 => ['a']
  | k + 1 => 'a' :: '+' :: sumText k

def sumTokens : ℕ → List Token
  | 0 => [⟨.ident "a", 1⟩]
  | k + 1 => ⟨.ident "a", 1⟩ :: ⟨.punct .plus, 1⟩ :: sumTokens k

/-- The sum as it is read, from the left. -/
def sum : ℕ → Expr
  | 0 => .ident "a"
  | k + 1 => .binary .add (sum k) (.ident "a")

lemma levels_sum (k : ℕ) : (sum k).levels 1 = k + 1 := by
  induction k with
  | zero => rfl
  | succ k ih =>
    simp only [sum, Expr.levels, ih]
    omega

lemma sumText_eq (k : ℕ) : ∃ cs, sumText k = 'a' :: cs := by
  cases k <;> exact ⟨_, rfl⟩

lemma tokenize_sumText (k : ℕ) : tokenize (.ofList (sumText k)) 1 = .ok (sumTokens k) := by
  rw [tokenize, String.toList_ofList]
  induction k with
  | zero => rfl
  | succ k ih =>
    -- a name follows the sign, so the sign is not the beginning of a longer mark
    obtain ⟨cs, hcs⟩ := sumText_eq k
    have hplus : Token.readWithin ((sumText k).length + 1) 1 ('+' :: sumText k) = (do
        return ⟨.punct .plus, 1⟩ :: (← Token.readWithin (sumText k).length 1 (sumText k))) := by
      rw [hcs]
      rfl
    have hname : Token.readWithin ((sumText k).length + 2) 1 ('a' :: '+' :: sumText k) = (do
        return ⟨.ident "a", 1⟩ ::
          (← Token.readWithin ((sumText k).length + 1) 1 ('+' :: sumText k))) := rfl
    simp only [ih] at hplus
    simp only [hplus] at hname
    exact hname

lemma sumTokens_snoc (k : ℕ) :
    sumTokens (k + 1) = sumTokens k ++ [⟨.punct .plus, 1⟩, ⟨.ident "a", 1⟩] := by
  induction k with
  | zero => rfl
  | succ k ih => exact congrArg (⟨.ident "a", 1⟩ :: ⟨.punct .plus, 1⟩ :: ·) ih

lemma derives_sum (k : ℕ) :
    Derives 0 (.operators 4) ((sumTokens k).map Token.kind) (sum k) := by
  have ha : Derives 0 .primary [.ident "a"] (.ident "a") :=
    .ident (by decide) fun _ h => by simpa using h.mem
  induction k with
  | zero => exact ha.operators (by omega)
  | succ k ih =>
    rw [sumTokens_snoc, List.map_append]
    exact .joined .add ih (ha.operators (by omega))

lemma parseExpression_sum (k : ℕ) : parseExpression (.ofList (sumText k)) 1 = .ok (sum k) := by
  have hd : Derives 1 .expression ((sumTokens k).map Token.kind) (sum k) :=
    .single (.unassigned (.unconditional ((derives_sum k).looser (by omega) (by omega))))
  have hne : sumTokens k ≠ [] := by
    cases k <;> simp [sumTokens]
  exact parseExpression_of_derives (tokenize_sumText k) hne (hd.mono (by decide))

lemma parseProgram_sum (k : ℕ) :
    parseProgram [.appendEscaped ⟨.ofList (sumText k), 1⟩] =
      .ok ⟨[.output (.escaped (sum k))]⟩ := by
  have hitems : itemsFrom 1 [.appendEscaped ⟨.ofList (sumText k), 1⟩] =
      .ok [.emit (.escaped (sum k)) 1] :=
    except_bind_ok.mpr ⟨_, parseExpression_sum k, rfl⟩
  exact except_bind_ok.mpr ⟨_, hitems, rfl⟩

lemma depth_sum (k : ℕ) : (Program.mk [.output (.escaped (sum k))]).depth = k + 2 := by
  simp only [Program.depth, Stmt.levelsAll, Stmt.levels, Output.exprs, Expr.levelsAll, levels_sum]
  omega

/-! ### Programs -/

/-- **Nesting**: apart from chains, a program that was read is no deeper than the limit on the
nesting allows. -/
theorem parseProgram_nesting (instructions : List Instruction) (p : Program)
    (h : parseProgram instructions = .ok p) : p.nesting ≤ 12 * maxNesting + 1 := by
  refine Stmt.levelsAll_le.mpr fun s hs => ?_
  have hle := (formed_of_parseProgram h s hs).levels_le (Nat.le_refl _)
  omega

theorem parseProgram_nesting_sum :
    ∃ p, parseProgram [.appendEscaped ⟨.ofList (sumText 2000), 1⟩] = .ok p ∧
      p.nesting ≤ 12 * maxNesting + 1 ∧ 12 * maxNesting + 1 < p.depth := by
  refine ⟨_, parseProgram_sum 2000, parseProgram_nesting _ _ (parseProgram_sum 2000), ?_⟩
  rw [depth_sum]
  decide

/-- With chains, no bound holds for the depth of all that can be read. -/
theorem depth_unbounded :
    ¬ ∃ bound, ∀ instructions p, parseProgram instructions = .ok p → p.depth ≤ bound := by
  rintro ⟨bound, h⟩
  have hle := h _ _ (parseProgram_sum bound)
  rw [depth_sum] at hle
  omega

end Stencil.Script
