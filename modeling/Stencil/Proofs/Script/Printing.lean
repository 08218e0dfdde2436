import Stencil.Proofs.Decimal.Whole
import Stencil.Proofs.Script.Depth

/-!
Printing expressions and programs.

Every part of an expression is put in parentheses, so no precedence has to be looked at. An
expression that was read is printed as a phrase of the grammar again, whatever marks it was read
from, and with two levels of nesting for each of its own.
-/

namespace Stencil.Script

open Reader Grammar

/-! ### Expressions -/

def BinaryOp.mark : BinaryOp → Punct
  | .add => .plus
  | .sub => .minus
  | .mul => .star
  | .div => .slash
  | .rem => .percent
  | .eq => .eqEq
  | .notEq => .notEq
  | .less => .less
  | .lessEq => .lessEq
  | .greater => .greater
  | .greaterEq => .greaterEq

def LogicalOp.mark : LogicalOp → Punct
  | .and => .andAnd
  | .or => .orOr

/-- A value that one token stands for. None stands for a container. -/
def literalTokens : Value → List TokenKind
  | .null => [.ident "null"]
  | .bool b => [.ident (if b then "true" else "false")]
  | .num (.int i) => [.number (Decimal.ofInt i)]
  | .num (.float f) => [.number f]
  | .str s => [.str s]
  | .arr _ | .obj _ => []

def enclosed (ts : List TokenKind) : List TokenKind :=
  .punct .openParen :: ts ++ [.punct .closeParen]

/-- Phrases with commas between them. -/
def separated : List (List TokenKind) → List TokenKind
  | [] => []
  | phrase :: more => phrase ++ more.flatMap (.punct .comma :: ·)

mutual

/-- The tokens of an expression, with parentheses around each of its parts. -/
def Expr.tokens : Expr → List TokenKind
  | .literal v => literalTokens v
  | .ident name => [.ident name]
  | .array items => .punct .openBracket :: separated (phrases items) ++ [.punct .closeBracket]
  | .object entries =>
    .punct .openBrace :: separated (entryPhrases entries) ++ [.punct .closeBrace]
  | .member target property => enclosed target.tokens ++ [.punct .dot, .ident property]
  | .index target key =>
    enclosed target.tokens ++ .punct .openBracket :: key.tokens ++ [.punct .closeBracket]
  | .call name args =>
    .ident name :: .punct .openParen :: separated (phrases args) ++ [.punct .closeParen]
  | .unary op operand => .punct op.mark :: enclosed operand.tokens
  | .binary op left right => enclosed left.tokens ++ .punct op.mark :: enclosed right.tokens
  | .logical op left right => enclosed left.tokens ++ .punct op.mark :: enclosed right.tokens
  | .conditional test yes no =>
    enclosed test.tokens ++ .punct .question :: enclosed yes.tokens ++
      .punct .colon :: enclosed no.tokens
  | .assign op target value => enclosed target.tokens ++ .punct op.mark :: enclosed value.tokens
  | .update op true target => .punct op.mark :: enclosed target.tokens
  | .update op false target => enclosed target.tokens ++ [.punct op.mark]
  | .sequence items => separated (phrases items)

def Expr.phrases : List Expr → List (List TokenKind)
  | [] => []
  | e :: rest => enclosed e.tokens :: phrases rest

def Expr.entryPhrases : List (String × Expr) → List (List TokenKind)
  | [] => []
  | (name, e) :: rest => (.str name :: .punct .colon :: enclosed e.tokens) :: entryPhrases rest

end

namespace Expr

lemma phrases_eq (es : List Expr) : phrases es = es.map fun e => enclosed e.tokens := by
  induction es with
  | nil => rfl
  | cons e es ih => simp [phrases, ih]

lemma entryPhrases_eq (es : List (String × Expr)) :
    entryPhrases es = es.map fun p => .str p.1 :: .punct .colon :: enclosed p.2.tokens := by
  induction es with
  | nil => rfl
  | cons e es ih => simp [entryPhrases, ih]

lemma tokens_binary (op : BinaryOp) (left right : Expr) : (binary op left right).tokens =
    enclosed left.tokens ++ .punct op.mark :: enclosed right.tokens := by rw [tokens]

lemma tokens_logical (op : LogicalOp) (left right : Expr) : (logical op left right).tokens =
    enclosed left.tokens ++ .punct op.mark :: enclosed right.tokens := by rw [tokens]

lemma levels_pos (e : Expr) : 0 < e.levels 1 := by
  cases e <;> simp only [levels] <;> omega

end Expr

lemma listed_separated (phrases : List (List TokenKind)) : Listed phrases (separated phrases) := by
  induction phrases with
  | nil => exact .none
  | cons phrase more ih =>
    cases more with
    | nil =>
      simp only [separated, List.flatMap_nil, List.append_nil]
      exact .last phrase
    | cons next more => exact .more phrase ih

/-- What an operator makes of its two sides is printed with one of its marks. -/
lemma Grammar.Joins.tokens {k : ℕ} {p : Punct} {join : Expr → Expr → Expr} (h : Joins k p join) :
    ∃ q, Joins k q join ∧ ∀ left right,
      (join left right).tokens = enclosed left.tokens ++ .punct q :: enclosed right.tokens := by
  cases h with
  | same => exact ⟨_, .eq, fun _ _ => Expr.tokens_binary ..⟩
  | notSame => exact ⟨_, .notEq, fun _ _ => Expr.tokens_binary ..⟩
  | or | and => exact ⟨_, by constructor, fun _ _ => Expr.tokens_logical ..⟩
  | _ => exact ⟨_, by constructor, fun _ _ => Expr.tokens_binary ..⟩

/-! ### Printed expressions -/

variable {n m : ℕ} {ts : List TokenKind} {e : Expr}

/-- The printed form of an expression stands for it, with two levels for each of its own. -/
def Prints (e : Expr) : Prop := ∀ m, 2 * e.levels 1 ≤ m + 1 → Derives m .expression e.tokens e

namespace Prints

lemma primary (h : Prints e) (hm : 2 * e.levels 1 ≤ m + 1) :
    Derives m .primary (enclosed e.tokens) e := .group (h m hm)

lemma stepped (h : Prints e) (hm : 2 * e.levels 1 ≤ m + 1) :
    Derives m .stepped (enclosed e.tokens) e := .unstepped (h.primary hm)

lemma conditional (h : Prints e) (hm : 2 * e.levels 1 ≤ m + 1) :
    Derives m .conditional (enclosed e.tokens) e :=
  .unconditional ((h.primary hm).operators (by omega))

lemma assignment (h : Prints e) (hm : 2 * e.levels 1 ≤ m) :
    Derives m .assignment (enclosed e.tokens) e := by
  have hpos := e.levels_pos
  obtain ⟨m, rfl⟩ := Nat.exists_eq_add_one_of_ne_zero (by omega : m ≠ 0)
  exact .unassigned (h.conditional hm)

lemma operand (h : Prints e) (hm : 2 * e.levels 1 ≤ m) :
    Derives m .operand (enclosed e.tokens) e := by
  have hpos := e.levels_pos
  obtain ⟨m, rfl⟩ := Nat.exists_eq_add_one_of_ne_zero (by omega : m ≠ 0)
  exact .operand (.bare (h.stepped hm))

/-- It is enough to have a conditional one level below. -/
lemma of_conditional (h : ∀ m, 2 * e.levels 1 ≤ m + 2 → Derives m .conditional e.tokens e) :
    Prints e := by
  intro m hm
  have hpos := e.levels_pos
  obtain ⟨m, rfl⟩ := Nat.exists_eq_add_one_of_ne_zero (by omega : m ≠ 0)
  exact .single (.unassigned (h m hm))

lemma of_unary (h : ∀ m, 2 * e.levels 1 ≤ m + 2 → Derives m .unary e.tokens e) : Prints e :=
  of_conditional fun m hm => .unconditional ((Derives.unjoined (h m hm)).looser (by omega) le_rfl)

lemma of_stepped (h : ∀ m, 2 * e.levels 1 ≤ m + 2 → Derives m .stepped e.tokens e) : Prints e :=
  of_unary fun m hm => .bare (h m hm)

lemma of_primary (h : ∀ m, 2 * e.levels 1 ≤ m + 2 → Derives m .primary e.tokens e) : Prints e :=
  of_stepped fun m hm => .unstepped (h m hm)

end Prints

/-! ### Lists of printed expressions -/

def Grammar.Element.ofExpr (e : Expr) : Element := ⟨enclosed e.tokens, e⟩

def Grammar.Entry.ofExpr (p : String × Expr) : Entry := ⟨.ofExpr p.2, .str p.1, p.1⟩

variable {es : List Expr}

lemma derives_ofExpr (h : ∀ e ∈ es, Prints e) (hm : 2 * Expr.levelsAll 1 es ≤ m) :
    ∀ p ∈ es.map Element.ofExpr, Derives m .assignment p.tokens p.value := by
  refine List.forall_mem_map.mpr fun e he => (h e he).assignment ?_
  have hle := Expr.levelsAll_le.mp (Nat.le_refl (Expr.levelsAll 1 es)) e he
  omega

lemma listed_ofExpr (es : List Expr) :
    Listed ((es.map Element.ofExpr).map (·.tokens)) (separated (Expr.phrases es)) := by
  have heq : (es.map Element.ofExpr).map (·.tokens) = Expr.phrases es := by
    simp [Expr.phrases_eq, Element.ofExpr]
  rw [heq]
  exact listed_separated _

lemma value_ofExpr (es : List Expr) : (es.map Element.ofExpr).map (·.value) = es := by
  simp [Element.ofExpr, Function.comp_def]

lemma prints_array (h : ∀ e ∈ es, Prints e) : Prints (.array es) := by
  refine .of_primary fun m hm => ?_
  simp only [Expr.levels] at hm
  have hd := Derives.array (derives_ofExpr h (m := m) (by omega)) (listed_ofExpr es)
  rwa [value_ofExpr] at hd

lemma prints_call {name : String} (hr : name ∉ reserved) (hc : ∀ v, ¬ Constant name v)
    (h : ∀ e ∈ es, Prints e) : Prints (.call name es) := by
  refine .of_stepped fun m hm => ?_
  simp only [Expr.levels] at hm
  have hd := Derives.call (.unstepped (.ident hr hc)) (derives_ofExpr h (m := m) (by omega))
    (listed_ofExpr es)
  rwa [value_ofExpr] at hd

lemma prints_object {entries : List (String × Expr)} (h : ∀ p ∈ entries, Prints p.2) :
    Prints (.object entries) := by
  refine .of_primary fun m hm => ?_
  simp only [Expr.levels] at hm
  have hvalues : ∀ p ∈ entries.map Entry.ofExpr, Derives m .assignment p.tokens p.value := by
    refine List.forall_mem_map.mpr fun p hp => (h p hp).assignment ?_
    have hle := Expr.levelsEntries_le.mp (Nat.le_refl (Expr.levelsEntries 1 entries)) p hp
    omega
  have hnames : ∀ p ∈ entries.map Entry.ofExpr, Names p.key p.name :=
    List.forall_mem_map.mpr fun p _ => .text p.1
  have hlist : Listed ((entries.map Entry.ofExpr).map (·.phrase))
      (separated (Expr.entryPhrases entries)) := by
    have heq : (entries.map Entry.ofExpr).map (·.phrase) = Expr.entryPhrases entries := by
      simp [Expr.entryPhrases_eq, Entry.ofExpr, Entry.phrase, Element.ofExpr]
    rw [heq]
    exact listed_separated _
  have hentries : (entries.map Entry.ofExpr).map (fun p => (p.name, p.value)) = entries := by
    simp [Entry.ofExpr, Element.ofExpr, Function.comp_def]
  have hd := Derives.object hvalues hnames hlist
  rwa [hentries] at hd

lemma prints_sequence (h : ∀ p ∈ e :: es, Prints p) (hne : es ≠ []) :
    Prints (.sequence (e :: es)) := by
  intro m hm
  have hall := Expr.levelsAll_le.mp (Nat.le_refl (Expr.levelsAll 1 (e :: es)))
  simp only [Expr.levels] at hm
  have hfirst := hall e List.mem_cons_self
  have hrest : Expr.levelsAll 1 es ≤ Expr.levelsAll 1 (e :: es) :=
    Expr.levelsAll_le.mpr fun p hp => hall p (List.mem_cons_of_mem _ hp)
  have hd := Derives.sequence ((h e List.mem_cons_self).assignment (m := m) (by omega))
    (by simpa using hne : es.map Element.ofExpr ≠ [])
    (derives_ofExpr (fun p hp => h p (List.mem_cons_of_mem _ hp)) (by omega))
  rw [value_ofExpr] at hd
  have htokens : (Expr.sequence (e :: es)).tokens = enclosed e.tokens ++
      (es.map Element.ofExpr).flatMap fun p => .punct .comma :: p.tokens := by
    rw [Expr.tokens, Expr.phrases_eq, List.map_cons, separated, List.flatMap_map, List.flatMap_map]
    rfl
  rw [htokens]
  exact hd

/-- A number is read from the token that it is printed as. -/
lemma prints_number (f : Float) : Prints (.literal (.ofFloat f)) := by
  refine .of_primary fun m _ => ?_
  show Derives m .primary (literalTokens (.ofFloat f)) _
  have hfloat (h : Value.ofFloat f = .num (.float f)) :
      Derives m .primary (literalTokens (.ofFloat f)) (.literal (.ofFloat f)) := by
    have hd : Derives m .primary [.number f] (.literal (.ofFloat f)) := .number f
    rw [h] at hd ⊢
    exact hd
  have hnull (h : Value.ofFloat f = .null) :
      Derives m .primary (literalTokens (.ofFloat f)) (.literal (.ofFloat f)) := by
    rw [h]
    exact .constant .null
  rcases hi : Decimal.toInt? f with _ | i
  · by_cases hfinite : f.isFinite
    · exact hfloat (by simp [Value.ofFloat, Number.ofFloat?, hi, hfinite])
    · exact hnull (by simp [Value.ofFloat, Number.ofFloat?, hi, hfinite])
  · by_cases hlt : i.natAbs < Nat.pow 2 53
    · have hint : Value.ofFloat f = .int i := by
        simp only [Value.ofFloat, Number.ofFloat?, hi, if_pos hlt]
        rfl
      have hd : Derives m .primary [.number (Decimal.ofInt i)]
          (.literal (.ofFloat (Decimal.ofInt i))) := .number _
      rw [Value.ofFloat_ofInt hlt] at hd
      rw [hint]
      exact hd
    · exact hfloat (by simp only [Value.ofFloat, Number.ofFloat?, hi, if_neg hlt])

lemma Grammar.Derives.ident_inv {p : Phrase} {name : String} (h : Derives n p ts e)
    (he : e = .ident name) : name ∉ reserved ∧ ∀ v, ¬ Constant name v := by
  induction h with
  | single _ ih | unassigned _ ih | unconditional _ ih | tighter _ _ ih | unjoined _ ih | bare _ ih
  | operand _ ih | unstepped _ ih | group _ ih => exact ih he
  | ident hr hc =>
    cases he
    exact ⟨hr, hc⟩
  | joined hj =>
    cases hj <;> cases he
  | _ => cases he

/-- **Printed expressions**: what stands for an expression anywhere, its printed form stands for
it, within two levels for each of its own. -/
theorem prints_of_derives {p : Phrase} (h : Derives n p ts e) : Prints e := by
  induction h with
  | single _ ih | unassigned _ ih | unconditional _ ih | tighter _ _ ih | unjoined _ ih | bare _ ih
  | operand _ ih | unstepped _ ih | group _ ih => exact ih
  -- sequences
  | sequence _ hne _ ih ihs =>
    exact prints_sequence (List.forall_mem_cons.mpr ⟨ih, List.forall_mem_map.mpr ihs⟩)
      (by simpa using hne)
  -- assignments and conditionals
  | assign op _ ha _ iht ihv =>
    intro m hm
    simp only [Expr.levels] at hm
    obtain ⟨m, rfl⟩ := Nat.exists_eq_add_one_of_ne_zero (by omega : m ≠ 0)
    exact .single (.assign op (iht.conditional (by omega)) ha (ihv.assignment (by omega)))
  | conditional _ _ _ iht ihy ihn =>
    refine .of_conditional fun m hm => ?_
    simp only [Expr.levels] at hm
    exact .conditional ((iht.primary (by omega)).operators (by omega)) (ihy.assignment (by omega))
      (ihn.assignment (by omega))
  -- operators
  | @joined n k ts us p join left right hj _ _ ihl ihr =>
    refine .of_conditional fun m hm => ?_
    obtain ⟨q, hq, htokens⟩ := hj.tokens
    have hk := hj.lt
    rw [hj.levels] at hm
    have hd : Derives m (.operators k) _ (join left right) :=
      .joined hq ((ihl.primary (by omega)).operators (by omega))
        ((ihr.primary (by omega)).operators (by omega))
    rw [htokens]
    exact .unconditional (hd.looser (by omega) (by omega))
  | prefixed op _ ih =>
    refine .of_unary fun m hm => ?_
    simp only [Expr.levels] at hm
    exact .prefixed op (ih.operand (by omega))
  | updateBefore op _ ha ih =>
    refine .of_unary fun m hm => ?_
    simp only [Expr.levels] at hm
    exact .updateBefore op (ih.operand (by omega)) ha
  | updateAfter op _ ha ih =>
    refine .of_unary fun m hm => ?_
    simp only [Expr.levels] at hm
    exact .updateAfter op (ih.stepped (by omega)) ha
  -- members, indices and calls
  | member name _ ih =>
    refine .of_stepped fun m hm => ?_
    simp only [Expr.levels] at hm
    exact .member name (ih.stepped (by omega))
  | index _ _ ih ihk =>
    refine .of_stepped fun m hm => ?_
    simp only [Expr.levels] at hm
    exact .index (ih.stepped (by omega)) (ihk m (by omega))
  | call hcallee _ _ _ ihs =>
    obtain ⟨hr, hc⟩ := hcallee.ident_inv rfl
    exact prints_call hr hc (List.forall_mem_map.mpr ihs)
  -- primary expressions
  | number f => exact prints_number f
  | text s => exact .of_primary fun _ _ => .text s
  | constant hc =>
    refine .of_primary fun m _ => ?_
    cases hc with
    | yes => exact .constant .yes
    | no => exact .constant .no
    | null | undefined => exact .constant .null
  | ident hr hc => exact .of_primary fun _ _ => .ident hr hc
  | array _ _ ihs => exact prints_array (List.forall_mem_map.mpr ihs)
  | object _ _ _ ihs => exact prints_object (List.forall_mem_map.mpr ihs)

/-! ### Statements -/

def tokensAt (line : ℕ) (ts : List TokenKind) : List Item := ts.map fun k => .token ⟨k, line⟩

lemma spans_tokensAt {line : ℕ} {rest : List Item} : Spans (tokensAt line ts ++ rest) rest ts :=
  ⟨ts.map fun k => ⟨k, line⟩, by simp [tokensAt], by simp [Function.comp_def]⟩

def bindingTokens : String × Option Expr → List TokenKind
  | (name, none) => [.ident name]
  | (name, some e) => .ident name :: .punct .assign :: enclosed e.tokens

def declarationTokens (bindings : List (String × Option Expr)) : List TokenKind :=
  .ident "var" :: separated (bindings.map bindingTokens)

def clauseTokens : Option Expr → List TokenKind
  | none => []
  | some e => e.tokens

/-- The first clause of a loop, which is a declaration or an expression. -/
def initTokens : Option Stmt → List TokenKind
  | some (.declare bindings) => declarationTokens bindings
  | some (.expr e) => enclosed e.tokens
  | _ => []

mutual

/-- The items of a statement, all of them on one line. -/
def Stmt.items (line : ℕ) : Stmt → List Item
  | .output o => [.emit o line]
  | .expr e => tokensAt line (enclosed e.tokens ++ [.punct .semicolon])
  | .declare bindings => tokensAt line (declarationTokens bindings ++ [.punct .semicolon])
  | .block body =>
    tokensAt line [.punct .openBrace] ++ itemsAll line body ++ tokensAt line [.punct .closeBrace]
  | .branch test yes no =>
    tokensAt line (.ident "if" :: enclosed test.tokens) ++ yes.items line ++ itemsElse line no
  | .forLoop init test update body =>
    tokensAt line (.ident "for" :: .punct .openParen :: initTokens init ++ .punct .semicolon ::
      clauseTokens test ++ .punct .semicolon :: clauseTokens update ++ [.punct .closeParen]) ++
      body.items line
  | .whileLoop test body =>
    tokensAt line (.ident "while" :: enclosed test.tokens) ++ body.items line
  | .leave => tokensAt line [.ident "break", .punct .semicolon]
  | .resume => tokensAt line [.ident "continue", .punct .semicolon]
  | .empty => tokensAt line [.punct .semicolon]

def Stmt.itemsElse (line : ℕ) : Option Stmt → List Item
  | none => []
  | some s => tokensAt line [.ident "else"] ++ s.items line

def Stmt.itemsAll (line : ℕ) : List Stmt → List Item
  | [] => []
  | s :: rest => s.items line ++ itemsAll line rest

end

/-- The items of a program. -/
def Program.items (p : Program) (line : ℕ) : List Item := Stmt.itemsAll line p.body

end Stencil.Script
