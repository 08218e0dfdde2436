import Mathlib.Data.List.Basic
import Mathlib.Data.List.ReduceOption
import Stencil.Proofs.Script.Follow
import Stencil.Proofs.Script.Items

/-!
Parsing keeps the outputs of a template, in their order.

Every reader of a statement takes some items from the front, and the outputs among these are the
outputs of the statement. Readers of expressions take only tokens.
-/

namespace Stencil.Script

/-! ### The outputs of a program -/

mutual

/-- The outputs in a statement, in the order of the text. -/
def Stmt.outputs : Stmt → List Output
  | .output o => [o]
  | .block body => outputsAll body
  | .branch _ yes no => yes.outputs ++ outputsOption no
  | .forLoop init _ _ body => outputsOption init ++ body.outputs
  | .whileLoop _ body => body.outputs
  | .expr _ | .declare _ | .leave | .resume | .empty => []

def Stmt.outputsOption : Option Stmt → List Output
  | none => []
  | some s => s.outputs

def Stmt.outputsAll : List Stmt → List Output
  | [] => []
  | s :: rest => s.outputs ++ outputsAll rest

end

def Program.outputs (p : Program) : List Output := Stmt.outputsAll p.body

/-- The output that an instruction stands for, if it stands for one. -/
def outputOf : Instruction → Except Fault (Option Output)
  | .appendLiteral text => .ok (some (.literal text))
  | .appendEscaped code => do return some (.escaped (← parseExpression code.source code.line))
  | .appendRaw code => do return some (.raw (← parseExpression code.source code.line))
  | .execute _ | .noop => .ok none

/-- The outputs that instructions stand for, in their order. -/
def outputsOf (instructions : List Instruction) : Except Fault (List Output) := do
  return (← instructions.mapM outputOf).reduceOption

/-! ### Outputs among the items -/

/-- The output of an item that is one. -/
def Item.output? : Item → Option Output
  | .token _ => none
  | .emit o _ => some o

variable {α β : Type} {items mid rest : List Item} {os os' : List Output}

/-- Items at the front with the given outputs among them, and then the rest. -/
def Takes (items rest : List Item) (os : List Output) : Prop :=
  ∃ front, items = front ++ rest ∧ front.filterMap Item.output? = os

lemma takes_refl : Takes items items [] := ⟨[], rfl, rfl⟩

lemma takes_token {t : Token} : Takes (.token t :: rest) rest [] := ⟨[.token t], rfl, rfl⟩

lemma takes_emit {o : Output} {line : ℕ} : Takes (.emit o line :: rest) rest [o] :=
  ⟨[.emit o line], rfl, rfl⟩

lemma Takes.trans (h : Takes items mid os) (h' : Takes mid rest os') :
    Takes items rest (os ++ os') := by
  obtain ⟨front, rfl, rfl⟩ := h
  obtain ⟨front', rfl, rfl⟩ := h'
  exact ⟨front ++ front', by simp, by simp⟩

lemma Takes.of_eq (h : Takes items rest os) (heq : os = os') : Takes items rest os' := heq ▸ h

lemma Takes.length_le (h : Takes items rest os) : rest.length ≤ items.length := by
  obtain ⟨front, rfl, -⟩ := h
  simp

lemma Reader.Spans.takes {ts : List TokenKind} (h : Reader.Spans items rest ts) :
    Takes items rest [] := by
  obtain ⟨tokens, rfl, -⟩ := h
  exact ⟨tokens.map .token, rfl, by simp [Item.output?, Function.comp_def]⟩

namespace Reader

/-- Of what the reader takes, the outputs are those of its answer. -/
def Keeps (r : Reader α) (f : α → List Output) : Prop :=
  ∀ ⦃items rest : List Item⦄ ⦃a : α⦄, r items = .ok (a, rest) → Takes items rest (f a)

variable {f : β → List Output}

lemma keeps_pure {b : β} (h : f b = []) : (pure b : Reader β).Keeps f := by
  intro items rest b' hr
  obtain ⟨rfl, rfl⟩ := pure_ok.mp hr
  exact h ▸ takes_refl

lemma keeps_fail {cause : Cause} : (fail cause : Reader β).Keeps f := fun _ _ _ h =>
  (fail_ok h).elim

/-- A reader that takes no outputs may come before another one. -/
lemma Keeps.bind {x : Reader α} {g : α → Reader β} (hx : x.Keeps fun _ => [])
    (hg : ∀ a, (g a).Keeps f) : (x >>= g).Keeps f := by
  intro items rest b h
  obtain ⟨a, mid, ha, hb⟩ := bind_ok.mp h
  exact (hx ha).trans (hg a hb)

lemma Keeps.bind_pure {x : Reader α} {g : α → β} (hx : x.Keeps fun a => f (g a)) :
    (x >>= fun a => pure (g a)).Keeps f := by
  intro items rest b h
  obtain ⟨a, mid, ha, hb⟩ := bind_ok.mp h
  obtain ⟨rfl, rfl⟩ := pure_ok.mp hb
  exact hx ha

lemma Keeps.map {x : Reader α} {g : α → β} (hx : x.Keeps fun a => f (g a)) :
    (g <$> x).Keeps f := by
  rw [map_eq_pure_bind]
  exact hx.bind_pure

lemma keeps_get : (get : Reader (List Item)).Keeps fun _ => [] := by
  intro items rest is h
  obtain ⟨-, rfl⟩ := get_ok.mp h
  exact takes_refl

lemma keeps_peek? : peek?.Keeps fun _ => [] := by
  intro items rest k h
  obtain ⟨-, rfl⟩ := peek?_ok.mp h
  exact takes_refl

lemma keeps_peekIs {p : Punct} : (peekIs p).Keeps fun _ => [] :=
  keeps_peek?.bind fun _ => keeps_pure rfl

lemma keeps_eat {p : Punct} : (eat p).Keeps fun _ => [] := by
  intro items rest b h
  rcases eat_ok.mp h with ⟨-, line, rfl⟩ | ⟨-, -, rfl⟩
  · exact takes_token
  · exact takes_refl

lemma keeps_expect {p : Punct} : (expect p).Keeps fun _ => [] := by
  intro items rest u h
  obtain ⟨line, rfl⟩ := expect_ok.mp h
  exact takes_token

lemma Keeps.ite {c : Prop} [Decidable c] {x y : Reader β} (hx : x.Keeps f) (hy : y.Keeps f) :
    (if c then x else y).Keeps f := by
  split_ifs
  · exact hx
  · exact hy

lemma Keeps.bounded {loop : ℕ → Reader β} (h : ∀ n, (loop n).Keeps f) : (bounded loop).Keeps f :=
  keeps_get.bind fun _ => h _

lemma Sound.keeps {r : Reader Expr} {P : List TokenKind → Expr → Prop} (h : r.Sound P) :
    r.Keeps fun _ => [] := by
  intro items rest e hr
  obtain ⟨ts, hspan, -⟩ := h hr
  exact hspan.takes

end Reader

open Reader

/-! ### Parts of statements -/

variable {inner : Level} {n : ℕ}

lemma keeps_expression (hi : inner.Sound n) : inner.expression.Keeps fun _ => [] :=
  (Level.expression_sound hi).keeps

lemma keeps_condition (hi : inner.Sound n) : (condition inner).Keeps fun _ => [] :=
  keeps_expect.bind fun _ => (keeps_expression hi).bind fun _ => keeps_expect.bind fun _ =>
    keeps_pure rfl

lemma keeps_bindingName : bindingName.Keeps fun _ => [] := by
  intro items rest name h
  rw [bindingName, bind_ok] at h
  obtain ⟨kind, mid, hk, h⟩ := h
  split at h
  · obtain ⟨line, mid, rfl, rfl⟩ := peek?_some_ok hk
    split_ifs at h
    · exact (failFound_ok h).elim
    · obtain ⟨rfl, rfl⟩ := pure_ok.mp h
      exact takes_token
  · exact (failFound_ok h).elim

lemma keeps_bindings (hi : inner.Sound n) (fuel : ℕ) : (bindings inner fuel).Keeps fun _ => [] := by
  induction fuel with
  | zero => exact keeps_pure rfl
  | succ fuel ih =>
    have hnext (name : String) (init : Option Expr) : Keeps (f := fun _ => []) (do
        if ← eat .comma then
          return (name, init) :: (← bindings inner fuel)
        else
          return [(name, init)]) :=
      keeps_eat.bind fun _ => .ite (ih.bind fun _ => keeps_pure rfl) (keeps_pure rfl)
    exact keeps_bindingName.bind fun name => keeps_eat.bind fun _ =>
      .ite (hi.assignment.keeps.map.bind (hnext name)) (hnext name none)

lemma keeps_declaration (hi : inner.Sound n) : (declaration inner).Keeps Stmt.outputs :=
  (Keeps.bounded (keeps_bindings hi)).bind fun _ => keeps_pure rfl

lemma keeps_clause (hi : inner.Sound n) {mark : Punct} : (clause inner mark).Keeps fun _ => [] :=
  keeps_peekIs.bind fun _ => .ite (keeps_pure rfl)
    ((keeps_expression hi).bind fun _ => keeps_pure rfl)

lemma declares_eq_true {kind : Option TokenKind} (h : declares kind = true) :
    ∃ name, kind = some (.ident name) := by
  rw [declares.eq_def] at h
  split at h
  · exact ⟨_, rfl⟩
  · cases h

lemma keeps_initial (hi : inner.Sound n) : (initial inner).Keeps Stmt.outputsOption := by
  refine keeps_peekIs.bind fun _ => .ite (keeps_pure rfl) fun items rest init h => ?_
  rw [bind_ok] at h
  obtain ⟨kind, mid, hk, h⟩ := h
  split_ifs at h with hd
  · -- a declaration after its keyword
    obtain ⟨name, rfl⟩ := declares_eq_true hd
    obtain ⟨line, mid, rfl, rfl⟩ := peek?_some_ok hk
    simp only [bind_ok, advance_ok, pure_ok] at h
    obtain ⟨-, _, rfl, s, mid', hs, rfl, rfl⟩ := h
    exact takes_token.trans (keeps_declaration hi hs)
  · obtain ⟨-, rfl⟩ := peek?_ok.mp hk
    simp only [bind_ok, pure_ok] at h
    obtain ⟨e, mid, he, rfl, rfl⟩ := h
    exact keeps_expression hi he

/-! ### Statements -/

variable {stmt : Reader Stmt}

lemma keeps_blockRest (hs : stmt.Keeps Stmt.outputs) (fuel : ℕ) :
    (blockRest stmt fuel).Keeps Stmt.outputsAll := by
  induction fuel with
  | zero => exact keeps_pure rfl
  | succ fuel ih =>
    refine keeps_eat.bind fun _ => .ite (keeps_pure rfl) (keeps_get.bind fun _ =>
      .ite keeps_fail fun items rest ss h => ?_)
    simp only [bind_ok, pure_ok] at h
    obtain ⟨s, mid, hfirst, ss, _, hmore, rfl, rfl⟩ := h
    exact (hs hfirst).trans (ih hmore)

lemma keeps_elseBranch (hs : stmt.Keeps Stmt.outputs) :
    (elseBranch stmt).Keeps Stmt.outputsOption := by
  intro items rest no h
  rw [elseBranch, bind_ok] at h
  obtain ⟨kind, mid, hk, h⟩ := h
  split_ifs at h with helse
  · obtain rfl := eq_of_beq helse
    obtain ⟨line, mid, rfl, rfl⟩ := peek?_some_ok hk
    simp only [bind_ok, advance_ok, pure_ok] at h
    obtain ⟨-, _, rfl, s, _, hs', rfl, rfl⟩ := h
    exact takes_token.trans (hs hs')
  · obtain ⟨-, rfl⟩ := peek?_ok.mp hk
    obtain ⟨rfl, rfl⟩ := pure_ok.mp h
    exact takes_refl

lemma keeps_branchRest (hi : inner.Sound n) (hs : stmt.Keeps Stmt.outputs) :
    (branchRest inner stmt).Keeps Stmt.outputs := by
  refine (keeps_condition hi).bind fun test items rest s h => ?_
  simp only [bind_ok, pure_ok] at h
  obtain ⟨yes, mid, hyes, no, _, hno, rfl, rfl⟩ := h
  exact (hs hyes).trans (keeps_elseBranch hs hno)

lemma keeps_forRest (hi : inner.Sound n) (hs : stmt.Keeps Stmt.outputs) :
    (forRest inner stmt).Keeps Stmt.outputs := by
  intro items rest s h
  simp only [forRest, bind_ok, expect_ok, pure_ok] at h
  obtain ⟨-, _, ⟨line₁, rfl⟩, init, mid₁, hinit, -, _, ⟨line₂, rfl⟩, test, mid₂, htest,
    -, _, ⟨line₃, rfl⟩, update, mid₃, hupdate, -, _, ⟨line₄, rfl⟩, body, _, hbody, rfl, rfl⟩ := h
  have hheader := (keeps_initial hi hinit).trans <| takes_token.trans <|
    (keeps_clause hi htest).trans <| takes_token.trans <|
    (keeps_clause hi hupdate).trans takes_token
  exact takes_token.trans (hheader.trans (hs hbody)) |>.of_eq (by simp [Stmt.outputs])

lemma keeps_whileRest (hi : inner.Sound n) (hs : stmt.Keeps Stmt.outputs) :
    (whileRest inner stmt).Keeps Stmt.outputs := by
  exact (keeps_condition hi).bind fun test => Keeps.bind_pure (f := Stmt.outputs) hs

lemma keeps_ended {s : Stmt} (h : s.outputs = []) : (ended s).Keeps Stmt.outputs :=
  keeps_eat.map.bind fun _ => keeps_pure h

lemma keeps_declarationStatement (hi : inner.Sound n) :
    (declaration inner >>= ended).Keeps Stmt.outputs := by
  intro items rest s h
  simp only [declaration, bind_ok, pure_ok] at h
  obtain ⟨s, mid, ⟨bs, _, hbs, rfl, rfl⟩, h⟩ := h
  exact (Keeps.bounded (keeps_bindings hi) hbs).trans (keeps_ended rfl h)

lemma keeps_expressionStatement (hi : inner.Sound n) :
    (expressionStatement inner).Keeps Stmt.outputs :=
  (keeps_expression hi).bind fun _ => keeps_ended rfl

/-- A statement took some items, and the outputs among these are its own. -/
def Took (items rest : List Item) (s : Stmt) : Prop :=
  Takes items rest s.outputs ∧ rest.length < items.length

variable {s : Stmt} {t : Token} {nested : StmtReader} {inLoop : Bool}

lemma took_expressionStatement (hi : inner.Sound n)
    (h : expressionStatement inner items = .ok (s, rest)) : Took items rest s := by
  refine ⟨keeps_expressionStatement hi h, ?_⟩
  rw [expressionStatement, bind_ok] at h
  obtain ⟨e, mid, he, h⟩ := h
  obtain ⟨ts, hspan, hd⟩ := Level.expression_sound hi he
  obtain ⟨k, us, rfl, -⟩ := hd.startsWith
  have hlen := hspan.length_eq
  have hend := (keeps_ended rfl h).length_le
  rw [List.length_cons] at hlen
  omega

/-- After its first token, a statement goes on with a reader that keeps the outputs. -/
lemma took_advance {x : Reader Stmt} (hx : x.Keeps Stmt.outputs)
    (h : (do advance; x) (.token t :: items) = .ok (s, rest)) :
    Took (.token t :: items) rest s := by
  rw [advance_bind] at h
  exact ⟨takes_token.trans (hx h), Nat.lt_succ_of_le (hx h).length_le⟩

lemma took_jump {word : String} {target : Stmt} (htarget : target.outputs = [])
    (h : jump word target inLoop (.token t :: items) = .ok (s, rest)) :
    Took (.token t :: items) rest s := by
  rw [jump] at h
  split_ifs at h
  · exact took_advance (keeps_ended htarget) h
  · exact (fail_ok h).elim

lemma took_wordStatement {word : String} (hi : inner.Sound n)
    (hs : ∀ b, (nested b).Keeps Stmt.outputs)
    (h : wordStatement inner nested inLoop word (.token t :: items) = .ok (s, rest)) :
    Took (.token t :: items) rest s := by
  rw [wordStatement] at h
  split_ifs at h
  · exact took_advance (keeps_branchRest hi (hs _)) h
  · exact took_advance (keeps_forRest hi (hs _)) h
  · exact took_advance (keeps_whileRest hi (hs _)) h
  · exact took_advance (keeps_declarationStatement hi) h
  · exact took_jump rfl h
  · exact took_jump rfl h
  · exact (fail_ok h).elim
  · exact took_expressionStatement hi h

lemma took_statementBody (hi : inner.Sound n) (hs : ∀ b, (nested b).Keeps Stmt.outputs)
    (h : statementBody inner nested inLoop items = .ok (s, rest)) : Took items rest s := by
  rw [statementBody, bind_ok] at h
  obtain ⟨is, _, hget, h⟩ := h
  obtain ⟨rfl, rfl⟩ := get_ok.mp hget
  split at h
  · rw [advance_bind] at h
    obtain ⟨rfl, rfl⟩ := pure_ok.mp h
    exact ⟨takes_emit, Nat.lt_succ_self _⟩
  · exact took_advance (keeps_pure rfl) h
  · exact took_advance (Keeps.bind_pure (Keeps.bounded (keeps_blockRest (hs _)))) h
  · exact took_wordStatement hi hs h
  · exact took_expressionStatement hi h

lemma took_statement (n : ℕ) (h : statement n inLoop items = .ok (s, rest)) :
    Took items rest s := by
  induction n generalizing inLoop items rest s with
  | zero => exact (fail_ok h).elim
  | succ n ih => exact took_statementBody (Level.ofDepth_sound n) (fun _ _ _ _ hs => (ih hs).1) h

/-! ### Programs -/

lemma statements_keeps {fuel : ℕ} {ss : List Stmt} (h : statements fuel items = .ok (ss, rest))
    (hfuel : items.length < fuel) : items.filterMap Item.output? = Stmt.outputsAll ss := by
  induction fuel generalizing items ss with
  | zero => omega
  | succ fuel ih =>
    rw [statements, bind_ok] at h
    obtain ⟨is, _, hget, h⟩ := h
    obtain ⟨rfl, rfl⟩ := get_ok.mp hget
    split_ifs at h with hempty
    · obtain ⟨rfl, rfl⟩ := pure_ok.mp h
      obtain rfl := List.isEmpty_iff.mp hempty
      rfl
    · rw [bind_of_ok peekIs_eq] at h
      split_ifs at h
      · exact (fail_ok h).elim
      · simp only [bind_ok, pure_ok] at h
        obtain ⟨s, mid, hs, ss, _, hss, rfl, rfl⟩ := h
        obtain ⟨⟨front, rfl, hfront⟩, hlen⟩ := took_statement maxNesting hs
        rw [List.filterMap_append, hfront, ih hss (by omega)]
        rfl

variable {instruction : Instruction} {instructions : List Instruction}

lemma outputsOf_cons {o : Option Output} (ho : outputOf instruction = .ok o)
    (h : outputsOf instructions = .ok os) :
    outputsOf (instruction :: instructions) = .ok (o.toList ++ os) := by
  obtain ⟨os, hos, h⟩ := except_bind_ok.mp h
  cases h
  rw [outputsOf, List.mapM_cons, ho, hos]
  cases o <;> rfl

lemma outputOf_of_makes {line next : ℕ} {first : List Item}
    (h : instruction.Makes line first next) :
    ∃ o, outputOf instruction = .ok o ∧ first.filterMap Item.output? = o.toList := by
  cases h with
  | literal text => exact ⟨some (.literal text), rfl, rfl⟩
  | execute => exact ⟨none, rfl, by simp [Item.output?, Function.comp_def]⟩
  | escaped _ he => exact ⟨_, except_bind_ok.mpr ⟨_, he, rfl⟩, rfl⟩
  | raw _ he => exact ⟨_, except_bind_ok.mpr ⟨_, he, rfl⟩, rfl⟩
  | noop => exact ⟨none, rfl, rfl⟩

/-- The outputs among the items are those of the instructions. -/
lemma outputsOf_eq_of_itemsFrom {line : ℕ} (h : itemsFrom line instructions = .ok items) :
    outputsOf instructions = .ok (items.filterMap Item.output?) := by
  induction instructions generalizing line items with
  | nil =>
    cases h
    rfl
  | cons instruction instructions ih =>
    obtain ⟨first, next, more, hi, hmore, rfl⟩ := itemsFrom_cons_ok.mp h
    obtain ⟨o, ho, hfirst⟩ := outputOf_of_makes hi
    rw [List.filterMap_append, hfirst]
    exact outputsOf_cons ho (ih hmore)

/-- **Parsing keeps the outputs**: the program of a list of instructions has the outputs that the
instructions stand for, each of them once and in their order. -/
theorem parseProgram_outputs (instructions : List Instruction) (p : Program)
    (h : parseProgram instructions = .ok p) : outputsOf instructions = .ok p.outputs := by
  obtain ⟨items, hitems, h⟩ := except_bind_ok.mp h
  obtain ⟨body, hbody, h⟩ := except_bind_ok.mp h
  cases h
  obtain ⟨rest, hrun⟩ := runOn_ok.mp hbody
  rw [outputsOf_eq_of_itemsFrom hitems, statements_keeps hrun (Nat.lt_succ_self _)]
  rfl

/-- A branch whose two sides lie in tags of their own. -/
def spanning : List Instruction :=
  [.appendLiteral "<p>", .execute ⟨"if (x) \x7b", 1⟩, .appendEscaped ⟨"x", 1⟩,
    .execute ⟨"\x7d else \x7b", 1⟩, .noop, .appendLiteral "-", .execute ⟨"\x7d", 1⟩]

theorem parseProgram_outputs_spanning : ∃ p, parseProgram spanning = .ok p ∧
    outputsOf spanning = .ok p.outputs ∧ p.outputs.length = 3 := by
  have hlen : (parseProgram spanning).toOption.map (·.outputs.length) = some 3 := by
    decide +kernel
  rcases hp : parseProgram spanning with f | p
  · rw [hp] at hlen
    cases hlen
  · rw [hp] at hlen
    exact ⟨p, rfl, parseProgram_outputs spanning p hp, Option.some.inj hlen⟩
end Stencil.Script
