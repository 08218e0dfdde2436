import Mathlib.Data.List.Basic
import Mathlib.Tactic.Common
import Stencil.Script.Stmt

/-!
What a program is made of: the statements and expressions in it, and the names it uses.
-/

namespace Stencil.Script

/-! ### Expressions -/

mutual

/-- An expression and all expressions in it. -/
def Expr.parts : Expr → List Expr
  | .literal v => [.literal v]
  | .ident name => [.ident name]
  | .array items => .array items :: partsAll items
  | .object entries => .object entries :: partsEntries entries
  | .member target property => .member target property :: target.parts
  | .index target key => .index target key :: (target.parts ++ key.parts)
  | .call name args => .call name args :: partsAll args
  | .unary op operand => .unary op operand :: operand.parts
  | .binary op left right => .binary op left right :: (left.parts ++ right.parts)
  | .logical op left right => .logical op left right :: (left.parts ++ right.parts)
  | .conditional test yes no =>
    .conditional test yes no :: (test.parts ++ yes.parts ++ no.parts)
  | .assign op target value => .assign op target value :: (target.parts ++ value.parts)
  | .update op before target => .update op before target :: target.parts
  | .sequence items => .sequence items :: partsAll items

def Expr.partsAll : List Expr → List Expr
  | [] => []
  | e :: rest => e.parts ++ partsAll rest

def Expr.partsEntries : List (String × Expr) → List Expr
  | [] => []
  | (_, e) :: rest => e.parts ++ partsEntries rest

end

/-- The expressions that an expression is directly made of. -/
def Expr.children : Expr → List Expr
  | .literal _ | .ident _ => []
  | .array items | .call _ items | .sequence items => items
  | .object entries => entries.map (·.2)
  | .member target _ | .update _ _ target => [target]
  | .unary _ operand => [operand]
  | .index left right | .binary _ left right | .logical _ left right | .assign _ left right =>
    [left, right]
  | .conditional test yes no => [test, yes, no]

/-- The name that an expression looks up by itself, as a value or as a helper. -/
def Expr.name? : Expr → Option String
  | .ident name | .call name _ => some name
  | _ => none

/-- The names used in an expression. -/
def Expr.names (e : Expr) : List String := e.parts.filterMap name?

namespace Expr

@[simp] lemma partsAll_eq (es : List Expr) : partsAll es = es.flatMap parts := by
  induction es with
  | nil => rfl
  | cons e es ih => simp [partsAll, ih]

@[simp] lemma partsEntries_eq (es : List (String × Expr)) :
    partsEntries es = es.flatMap fun p => p.2.parts := by
  induction es with
  | nil => rfl
  | cons e es ih => simp [partsEntries, ih]

lemma parts_eq (e : Expr) : e.parts = e :: e.children.flatMap parts := by
  cases e <;> simp [parts, children, List.flatMap_map]

lemma forall_mem_parts {P : Expr → Prop} {e : Expr} :
    (∀ x ∈ e.parts, P x) ↔ P e ∧ ∀ c ∈ e.children, ∀ x ∈ c.parts, P x := by
  rw [parts_eq]
  simp only [List.forall_mem_cons, List.forall_mem_flatMap]

lemma sizeOf_child_lt {e c : Expr} (h : c ∈ e.children) : sizeOf c < sizeOf e := by
  cases e with
  | literal | ident => cases h
  | array items | call _ items | sequence items =>
    have hlt : sizeOf c < sizeOf items := List.sizeOf_lt_of_mem h
    simp only [array.sizeOf_spec, call.sizeOf_spec, sequence.sizeOf_spec]
    omega
  | object entries =>
    obtain ⟨⟨name, value⟩, hmem, rfl⟩ := List.mem_map.mp h
    have hlt : sizeOf (name, value) < sizeOf entries := List.sizeOf_lt_of_mem hmem
    simp only [Prod.mk.sizeOf_spec] at hlt
    simp only [object.sizeOf_spec]
    omega
  | member target | update _ _ target | unary _ target =>
    obtain rfl := List.mem_singleton.mp h
    simp only [member.sizeOf_spec, update.sizeOf_spec, unary.sizeOf_spec]
    omega
  | index left right | binary _ left right | logical _ left right | assign _ left right =>
    simp only [children, List.mem_cons, List.not_mem_nil, or_false] at h
    simp only [index.sizeOf_spec, binary.sizeOf_spec, logical.sizeOf_spec, assign.sizeOf_spec]
    rcases h with rfl | rfl <;> omega
  | conditional test yes no =>
    simp only [children, List.mem_cons, List.not_mem_nil, or_false] at h
    simp only [conditional.sizeOf_spec]
    rcases h with rfl | rfl | rfl <;> omega

/-- What passes from each expression to those it is made of, passes to all expressions in it. -/
theorem forall_mem_parts_of_children {P : Expr → Prop}
    (hP : ∀ e, P e → ∀ c ∈ e.children, P c) {e : Expr} (h : P e) : ∀ x ∈ e.parts, P x :=
  forall_mem_parts.mpr ⟨h, fun c hc => forall_mem_parts_of_children hP (hP e h c hc)⟩
termination_by sizeOf e
decreasing_by exact sizeOf_child_lt hc

lemma names_eq (e : Expr) : e.names = e.name?.toList ++ e.children.flatMap names := by
  rw [names, parts_eq, List.filterMap_cons, List.filterMap_flatMap]
  cases e.name? <;> rfl

section Names

variable (op : UnaryOp) (bop : BinaryOp) (lop : LogicalOp) (aop : AssignOp) (uop : UpdateOp)
variable (name : String) (before : Bool) (e l r : Expr) (es : List Expr)

@[simp] lemma names_literal (v : Value) : (literal v).names = [] := rfl

@[simp] lemma names_ident : (ident name).names = [name] := rfl

@[simp] lemma names_array : (array es).names = es.flatMap names := names_eq _

@[simp] lemma names_object (entries : List (String × Expr)) :
    (object entries).names = entries.flatMap fun p => p.2.names := by
  simp [names_eq (object entries), name?, children, List.flatMap_map]

@[simp] lemma names_member : (member e name).names = e.names := rfl

@[simp] lemma names_index : (index l r).names = l.names ++ r.names := by
  simp [names_eq (index l r), name?, children]

@[simp] lemma names_call : (call name es).names = name :: es.flatMap names := names_eq _

@[simp] lemma names_unary : (unary op e).names = e.names := rfl

@[simp] lemma names_binary : (binary bop l r).names = l.names ++ r.names := by
  simp [names_eq (binary bop l r), name?, children]

@[simp] lemma names_logical : (logical lop l r).names = l.names ++ r.names := by
  simp [names_eq (logical lop l r), name?, children]

@[simp] lemma names_conditional :
    (conditional e l r).names = e.names ++ (l.names ++ r.names) := by
  simp [names_eq (conditional e l r), name?, children]

@[simp] lemma names_assign : (assign aop l r).names = l.names ++ r.names := by
  simp [names_eq (assign aop l r), name?, children]

@[simp] lemma names_update : (update uop before e).names = e.names := rfl

@[simp] lemma names_sequence : (sequence es).names = es.flatMap names := names_eq _

end Names

end Expr

/-! ### Statements -/

def Output.exprs : Output → List Expr
  | .literal _ => []
  | .escaped e | .raw e => [e]

mutual

/-- A statement and all statements in it. -/
def Stmt.parts : Stmt → List Stmt
  | .block body => .block body :: partsAll body
  | .branch test yes no => .branch test yes no :: (yes.parts ++ partsOption no)
  | .forLoop init test update body =>
    .forLoop init test update body :: (partsOption init ++ body.parts)
  | .whileLoop test body => .whileLoop test body :: body.parts
  | .output o => [.output o]
  | .expr e => [.expr e]
  | .declare bindings => [.declare bindings]
  | .leave => [.leave]
  | .resume => [.resume]
  | .empty => [.empty]

def Stmt.partsOption : Option Stmt → List Stmt
  | none => []
  | some s => s.parts

def Stmt.partsAll : List Stmt → List Stmt
  | [] => []
  | s :: rest => s.parts ++ partsAll rest

end

/-- The statements that a statement is directly made of. -/
def Stmt.children : Stmt → List Stmt
  | .block body => body
  | .branch _ yes no => yes :: no.toList
  | .forLoop init _ _ body => init.toList ++ [body]
  | .whileLoop _ body => [body]
  | .output _ | .expr _ | .declare _ | .leave | .resume | .empty => []

mutual

/-- Whether a statement leaves a loop around it, or goes on with its next round. The jumps in the
body of a loop are jumps of that loop. -/
def Stmt.jumpsOut : Stmt → Bool
  | .leave | .resume => true
  | .block body => jumpsOutAny body
  | .branch _ yes no => yes.jumpsOut || jumpsOutOption no
  | .forLoop init _ _ _ => jumpsOutOption init
  | .whileLoop _ _ | .output _ | .expr _ | .declare _ | .empty => false

def Stmt.jumpsOutOption : Option Stmt → Bool
  | none => false
  | some s => s.jumpsOut

def Stmt.jumpsOutAny : List Stmt → Bool
  | [] => false
  | s :: rest => s.jumpsOut || jumpsOutAny rest

end

/-- The expressions of a statement itself, without those of the statements in it. -/
def Stmt.exprs : Stmt → List Expr
  | .output o => o.exprs
  | .expr e => [e]
  | .declare bindings => bindings.filterMap (·.2)
  | .branch test _ _ | .whileLoop test _ => [test]
  | .forLoop _ test update _ => test.toList ++ update.toList
  | .block _ | .leave | .resume | .empty => []

/-- The names that a statement itself declares. -/
def Stmt.declared : Stmt → List String
  | .declare bindings => bindings.map (·.1)
  | _ => []

/-- The names that a statement itself declares or uses. -/
def Stmt.ownNames (s : Stmt) : List String := s.declared ++ s.exprs.flatMap Expr.names

/-- The names declared or used in a statement and the statements in it. -/
def Stmt.names (s : Stmt) : List String := s.parts.flatMap ownNames

namespace Stmt

@[simp] lemma partsOption_eq (s : Option Stmt) : partsOption s = s.toList.flatMap parts := by
  cases s <;> simp [partsOption]

@[simp] lemma partsAll_eq (ss : List Stmt) : partsAll ss = ss.flatMap parts := by
  induction ss with
  | nil => rfl
  | cons s ss ih => simp [partsAll, ih]

@[simp] lemma jumpsOutOption_eq (s : Option Stmt) : jumpsOutOption s = s.any jumpsOut := by
  cases s <;> rfl

@[simp] lemma jumpsOutAny_eq (ss : List Stmt) : jumpsOutAny ss = ss.any jumpsOut := by
  induction ss with
  | nil => rfl
  | cons s ss ih => simp [jumpsOutAny, ih]

lemma parts_eq (s : Stmt) : s.parts = s :: s.children.flatMap parts := by
  cases s <;> simp [parts, children]

lemma forall_mem_parts {P : Stmt → Prop} {s : Stmt} :
    (∀ x ∈ s.parts, P x) ↔ P s ∧ ∀ c ∈ s.children, ∀ x ∈ c.parts, P x := by
  rw [parts_eq]
  simp only [List.forall_mem_cons, List.forall_mem_flatMap]

lemma sizeOf_child_lt {s c : Stmt} (h : c ∈ s.children) : sizeOf c < sizeOf s := by
  cases s with
  | block body =>
    have hlt : sizeOf c < sizeOf body := List.sizeOf_lt_of_mem h
    simp only [block.sizeOf_spec]
    omega
  | branch test yes no =>
    simp only [children, List.mem_cons, Option.mem_toList] at h
    rcases h with rfl | hno
    · simp only [branch.sizeOf_spec]
      omega
    · obtain rfl := Option.mem_def.mp hno
      simp only [branch.sizeOf_spec, Option.some.sizeOf_spec]
      omega
  | forLoop init test update body =>
    simp only [children, List.mem_append, Option.mem_toList, List.mem_singleton] at h
    rcases h with hinit | rfl
    · obtain rfl := Option.mem_def.mp hinit
      simp only [forLoop.sizeOf_spec, Option.some.sizeOf_spec]
      omega
    · simp only [forLoop.sizeOf_spec]
      omega
  | whileLoop test body =>
    obtain rfl := List.mem_singleton.mp h
    simp only [whileLoop.sizeOf_spec]
    omega
  | output | expr | declare | leave | resume | empty => cases h

/-- What passes from each statement to those it is made of, passes to all statements in it. -/
theorem forall_mem_parts_of_children {P : Stmt → Prop}
    (hP : ∀ s, P s → ∀ c ∈ s.children, P c) {s : Stmt} (h : P s) : ∀ x ∈ s.parts, P x :=
  forall_mem_parts.mpr ⟨h, fun c hc => forall_mem_parts_of_children hP (hP s h c hc)⟩
termination_by sizeOf s
decreasing_by exact sizeOf_child_lt hc

lemma names_eq (s : Stmt) : s.names = s.ownNames ++ s.children.flatMap names := by
  rw [names, parts_eq, List.flatMap_cons, List.flatMap_assoc]
  rfl

section Names

variable (test e : Expr) (s : Stmt)

@[simp] lemma names_output (o : Output) : (output o).names = o.exprs.flatMap Expr.names := by
  simp [names_eq (output o), ownNames, declared, exprs, children]

@[simp] lemma names_expr : (expr e).names = e.names := by
  simp [names_eq (expr e), ownNames, declared, exprs, children]

@[simp] lemma names_declare (bindings : List (String × Option Expr)) :
    (declare bindings).names =
      bindings.map (·.1) ++ (bindings.filterMap (·.2)).flatMap Expr.names := by
  simp [names_eq (declare bindings), ownNames, declared, exprs, children]

@[simp] lemma names_block (body : List Stmt) : (block body).names = body.flatMap names :=
  names_eq _

@[simp] lemma names_branch (no : Option Stmt) :
    (branch test s no).names = test.names ++ (s.names ++ no.toList.flatMap names) := by
  simp [names_eq (branch test s no), ownNames, declared, exprs, children]

@[simp] lemma names_forLoop (init : Option Stmt) (test update : Option Expr) :
    (forLoop init test update s).names =
      (test.toList ++ update.toList).flatMap Expr.names ++
        (init.toList.flatMap names ++ s.names) := by
  simp [names_eq (forLoop init test update s), ownNames, declared, exprs, children]

@[simp] lemma names_whileLoop : (whileLoop test s).names = test.names ++ s.names := by
  simp [names_eq (whileLoop test s), ownNames, declared, exprs, children]

end Names

end Stmt

/-! ### Programs -/

namespace Program

def stmts (p : Program) : List Stmt := p.body.flatMap Stmt.parts

/-- All expressions in a program, at any depth. -/
def exprs (p : Program) : List Expr := (p.stmts.flatMap Stmt.exprs).flatMap Expr.parts

/-- The names that occur in a program as a variable, a callee or in a declaration. -/
def names (p : Program) : List String := p.body.flatMap Stmt.names

end Program

end Stencil.Script
