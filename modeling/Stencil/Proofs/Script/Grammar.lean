import Mathlib.Data.Nat.Init
import Mathlib.Tactic.Common
import Stencil.Script.Token
import Stencil.Script.Expr
import Stencil.Value.Coercion

/-!
The grammar of expressions, as rules over the kinds of tokens.

The rules know no reading direction: a phrase is a phrase whatever comes before and after it.
-/

namespace Stencil.Script

/-! ### Marks of operators -/

def UnaryOp.mark : UnaryOp → Punct
  | .not => .bang
  | .neg => .minus
  | .plus => .plus

def UpdateOp.mark : UpdateOp → Punct
  | .increment => .plusPlus
  | .decrement => .minusMinus

def AssignOp.mark : AssignOp → Punct
  | .set => .assign
  | .add => .plusEq
  | .sub => .minusEq

namespace Grammar

/-- The operators between operands, by precedence from the loosest to the tightest, and what
they make of their two sides. -/
inductive Joins : ℕ → Punct → (Expr → Expr → Expr) → Prop
  | or : Joins 0 .orOr (.logical .or)
  | and : Joins 1 .andAnd (.logical .and)
  | eq : Joins 2 .eqEq (.binary .eq)
  | same : Joins 2 .eqEqEq (.binary .eq)
  | notEq : Joins 2 .notEq (.binary .notEq)
  | notSame : Joins 2 .notEqEq (.binary .notEq)
  | less : Joins 3 .less (.binary .less)
  | lessEq : Joins 3 .lessEq (.binary .lessEq)
  | greater : Joins 3 .greater (.binary .greater)
  | greaterEq : Joins 3 .greaterEq (.binary .greaterEq)
  | add : Joins 4 .plus (.binary .add)
  | sub : Joins 4 .minus (.binary .sub)
  | mul : Joins 5 .star (.binary .mul)
  | div : Joins 5 .slash (.binary .div)
  | rem : Joins 5 .percent (.binary .rem)

/-! ### Words and lists -/

/-- The words that stand for a value of their own. -/
inductive Constant : String → Value → Prop
  | yes : Constant "true" (.bool true)
  | no : Constant "false" (.bool false)
  | null : Constant "null" .null
  | undefined : Constant "undefined" .null

lemma Constant.mem {name : String} {v : Value} (h : Constant name v) :
    name ∈ ["true", "false", "null", "undefined"] := by
  cases h <;> simp

/-- The name that a token gives to an entry of an object. -/
inductive Names : TokenKind → String → Prop
  | word (name : String) : Names (.ident name) name
  | text (s : String) : Names (.str s) s
  | number (f : Float) : Names (.number f) (Value.ofFloat f).toText

/-- Phrases with a comma after each of them, which the last one may lack. -/
inductive Listed : List (List TokenKind) → List TokenKind → Prop
  | none : Listed [] []
  | last (phrase : List TokenKind) : Listed [phrase] phrase
  | more {phrases : List (List TokenKind)} {ts : List TokenKind} (phrase : List TokenKind) :
      Listed phrases ts → Listed (phrase :: phrases) (phrase ++ .punct .comma :: ts)

/-- An element of a list: its tokens and what they stand for. -/
structure Element where
  tokens : List TokenKind
  value : Expr

/-- An entry of an object: the token that names it, the name, and the value with its tokens. -/
structure Entry extends Element where
  key : TokenKind
  name : String

def Entry.phrase (p : Entry) : List TokenKind := p.key :: .punct .colon :: p.tokens

/-! ### Phrases -/

/-- What a phrase can be. Operators come by their precedence. -/
inductive Phrase where
  | expression | assignment | conditional
  | operators (precedence : ℕ)
  | unary | operand | stepped | primary

/-- `Derives n p ts e`: the tokens `ts` are a phrase of the kind `p` that stands for `e`, and
at most `n` assignments and operands of prefix operators are nested in it. -/
inductive Derives : ℕ → Phrase → List TokenKind → Expr → Prop
  -- sequences
  | single {n : ℕ} {ts : List TokenKind} {e : Expr} :
      Derives n .assignment ts e → Derives n .expression ts e
  | sequence {n : ℕ} {ts : List TokenKind} {e : Expr} {more : List Element} :
      Derives n .assignment ts e → more ≠ [] →
      (∀ p ∈ more, Derives n .assignment p.tokens p.value) →
      Derives n .expression (ts ++ more.flatMap fun p => .punct .comma :: p.tokens)
        (.sequence (e :: more.map (·.value)))
  -- assignments
  | unassigned {n : ℕ} {ts : List TokenKind} {e : Expr} :
      Derives n .conditional ts e → Derives (n + 1) .assignment ts e
  | assign {n : ℕ} {ts us : List TokenKind} {target value : Expr} (op : AssignOp) :
      Derives n .conditional ts target → target.isAssignable = true →
      Derives n .assignment us value →
      Derives (n + 1) .assignment (ts ++ .punct op.mark :: us) (.assign op target value)
  -- conditionals
  | unconditional {n : ℕ} {ts : List TokenKind} {e : Expr} :
      Derives n (.operators 0) ts e → Derives n .conditional ts e
  | conditional {n : ℕ} {ts us vs : List TokenKind} {test yes no : Expr} :
      Derives n (.operators 0) ts test → Derives n .assignment us yes →
      Derives n .assignment vs no →
      Derives n .conditional (ts ++ .punct .question :: us ++ .punct .colon :: vs)
        (.conditional test yes no)
  -- operators between operands, which associate to the left
  | tighter {n k : ℕ} {ts : List TokenKind} {e : Expr} : k < 6 →
      Derives n (.operators (k + 1)) ts e → Derives n (.operators k) ts e
  | joined {n k : ℕ} {ts us : List TokenKind} {p : Punct} {join : Expr → Expr → Expr}
      {left right : Expr} : Joins k p join →
      Derives n (.operators k) ts left → Derives n (.operators (k + 1)) us right →
      Derives n (.operators k) (ts ++ .punct p :: us) (join left right)
  | unjoined {n : ℕ} {ts : List TokenKind} {e : Expr} :
      Derives n .unary ts e → Derives n (.operators 6) ts e
  -- operators before or after an operand
  | prefixed {n : ℕ} {ts : List TokenKind} {e : Expr} (op : UnaryOp) :
      Derives n .operand ts e → Derives n .unary (.punct op.mark :: ts) (.unary op e)
  | updateBefore {n : ℕ} {ts : List TokenKind} {e : Expr} (op : UpdateOp) :
      Derives n .operand ts e → e.isAssignable = true →
      Derives n .unary (.punct op.mark :: ts) (.update op true e)
  | updateAfter {n : ℕ} {ts : List TokenKind} {e : Expr} (op : UpdateOp) :
      Derives n .stepped ts e → e.isAssignable = true →
      Derives n .unary (ts ++ [.punct op.mark]) (.update op false e)
  | bare {n : ℕ} {ts : List TokenKind} {e : Expr} :
      Derives n .stepped ts e → Derives n .unary ts e
  | operand {n : ℕ} {ts : List TokenKind} {e : Expr} :
      Derives n .unary ts e → Derives (n + 1) .operand ts e
  -- members, indices and calls
  | unstepped {n : ℕ} {ts : List TokenKind} {e : Expr} :
      Derives n .primary ts e → Derives n .stepped ts e
  | member {n : ℕ} {ts : List TokenKind} {e : Expr} (name : String) :
      Derives n .stepped ts e →
      Derives n .stepped (ts ++ [.punct .dot, .ident name]) (.member e name)
  | index {n : ℕ} {ts us : List TokenKind} {e key : Expr} :
      Derives n .stepped ts e → Derives n .expression us key →
      Derives n .stepped (ts ++ .punct .openBracket :: us ++ [.punct .closeBracket])
        (.index e key)
  | call {n : ℕ} {ts us : List TokenKind} {name : String} {args : List Element} :
      Derives n .stepped ts (.ident name) →
      (∀ p ∈ args, Derives n .assignment p.tokens p.value) →
      Listed (args.map (·.tokens)) us →
      Derives n .stepped (ts ++ .punct .openParen :: us ++ [.punct .closeParen])
        (.call name (args.map (·.value)))
  -- primary expressions
  | number {n : ℕ} (f : Float) : Derives n .primary [.number f] (.literal (.ofFloat f))
  | text {n : ℕ} (s : String) : Derives n .primary [.str s] (.literal (.str s))
  | constant {n : ℕ} {name : String} {v : Value} : Constant name v →
      Derives n .primary [.ident name] (.literal v)
  | ident {n : ℕ} {name : String} : name ∉ reserved → (∀ v, ¬ Constant name v) →
      Derives n .primary [.ident name] (.ident name)
  | group {n : ℕ} {ts : List TokenKind} {e : Expr} : Derives n .expression ts e →
      Derives n .primary (.punct .openParen :: ts ++ [.punct .closeParen]) e
  | array {n : ℕ} {us : List TokenKind} {items : List Element} :
      (∀ p ∈ items, Derives n .assignment p.tokens p.value) →
      Listed (items.map (·.tokens)) us →
      Derives n .primary (.punct .openBracket :: us ++ [.punct .closeBracket])
        (.array (items.map (·.value)))
  | object {n : ℕ} {us : List TokenKind} {entries : List Entry} :
      (∀ p ∈ entries, Derives n .assignment p.tokens p.value) →
      (∀ p ∈ entries, Names p.key p.name) → Listed (entries.map (·.phrase)) us →
      Derives n .primary (.punct .openBrace :: us ++ [.punct .closeBrace])
        (.object (entries.map fun p => (p.name, p.value)))

lemma Derives.looser {n j k : ℕ} {ts : List TokenKind} {e : Expr}
    (h : Derives n (.operators k) ts e) (hj : j ≤ k) (hk : k ≤ 6) :
    Derives n (.operators j) ts e := by
  induction hj using Nat.decreasingInduction with
  | self => exact h
  | of_succ j hj ih => exact .tighter (by omega) ih

/-- A primary expression is an operand of every operator. -/
lemma Derives.operators {n k : ℕ} {ts : List TokenKind} {e : Expr} (h : Derives n .primary ts e)
    (hk : k ≤ 6) : Derives n (.operators k) ts e :=
  (Derives.unjoined (.bare (.unstepped h))).looser hk (Nat.le_refl _)

/-- A bound on the nesting may be raised. -/
lemma Derives.mono {n m : ℕ} {p : Phrase} {ts : List TokenKind} {e : Expr} (h : Derives n p ts e)
    (hm : n ≤ m) : Derives m p ts e := by
  induction h generalizing m with
  | single _ ih => exact .single (ih hm)
  | sequence _ hne _ ih ihs => exact .sequence (ih hm) hne fun p hp => ihs p hp hm
  | unassigned _ ih =>
    obtain ⟨m, rfl⟩ := Nat.exists_eq_add_one_of_ne_zero (by omega : m ≠ 0)
    exact .unassigned (ih (by omega))
  | assign op _ ha _ iht ihv =>
    obtain ⟨m, rfl⟩ := Nat.exists_eq_add_one_of_ne_zero (by omega : m ≠ 0)
    exact .assign op (iht (by omega)) ha (ihv (by omega))
  | unconditional _ ih => exact .unconditional (ih hm)
  | conditional _ _ _ iht ihy ihn => exact .conditional (iht hm) (ihy hm) (ihn hm)
  | tighter hk _ ih => exact .tighter hk (ih hm)
  | joined hj _ _ ihl ihr => exact .joined hj (ihl hm) (ihr hm)
  | unjoined _ ih => exact .unjoined (ih hm)
  | prefixed op _ ih => exact .prefixed op (ih hm)
  | updateBefore op _ ha ih => exact .updateBefore op (ih hm) ha
  | updateAfter op _ ha ih => exact .updateAfter op (ih hm) ha
  | bare _ ih => exact .bare (ih hm)
  | operand _ ih =>
    obtain ⟨m, rfl⟩ := Nat.exists_eq_add_one_of_ne_zero (by omega : m ≠ 0)
    exact .operand (ih (by omega))
  | unstepped _ ih => exact .unstepped (ih hm)
  | member name _ ih => exact .member name (ih hm)
  | index _ _ ih ihk => exact .index (ih hm) (ihk hm)
  | call _ _ hlist ih ihs => exact .call (ih hm) (fun p hp => ihs p hp hm) hlist
  | number f => exact .number f
  | text s => exact .text s
  | constant hc => exact .constant hc
  | ident hr hc => exact .ident hr hc
  | group _ ih => exact .group (ih hm)
  | array _ hlist ihs => exact .array (fun p hp => ihs p hp hm) hlist
  | object _ hnames hlist ihs => exact .object (fun p hp => ihs p hp hm) hnames hlist

end Grammar

end Stencil.Script
