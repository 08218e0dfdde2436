import Stencil.Proofs.Script.Invariant
import Stencil.Proofs.Script.Locals
import Stencil.Proofs.Script.Statements
import Stencil.Proofs.Value.Position
import Stencil.Script.Exec

/-!
Loops that count through the elements of an array.

The loop keeps an index and a length of its own. Its test assigns the element at the index before
it compares the two, so that one element beyond the last is looked up, which reads as null.
-/

namespace Stencil.Script

open Reader Grammar Exec

/-- The variable that such a loop counts with. -/
def indexName (name : String) : String := "_" ++ name

/-- The variable that such a loop keeps the length in. -/
def lengthName (name : String) : String := "__" ++ name

namespace Counting

def init (name : String) (elements : Expr) : Stmt :=
  .declare [(indexName name, some (.literal (.int 0))),
    (lengthName name, some (.member elements "length")), (name, none)]

def test (name : String) (elements : Expr) : Expr :=
  .sequence [.assign .set (.ident name) (.index elements (.ident (indexName name))),
    .binary .less (.ident (indexName name)) (.ident (lengthName name))]

def update (name : String) : Expr := .update .increment true (.ident (indexName name))

def loop (name : String) (elements : Expr) (body : Stmt) : Stmt :=
  .forLoop (some (init name elements)) (some (test name elements)) (some (update name)) body

/-! ### Reading -/

/-- A word that names a variable. -/
structure Variable (name : String) : Prop where
  free : name ∉ reserved
  other : ∀ v, ¬ Constant name v

variable {n : ℕ} {name : String} {ts : List TokenKind} {e : Expr}

lemma variable_of_not_mem (h : name ∉ reserved ++ ["true", "false", "null", "undefined"]) :
    Variable name := by
  rw [List.mem_append, not_or] at h
  exact ⟨h.1, fun _ hv => h.2 hv.mem⟩

/-- No word with a meaning of its own begins with an underscore. -/
lemma variable_underscore (s : String) : Variable ("_" ++ s) := by
  have hwords : ∀ w ∈ reserved ++ ["true", "false", "null", "undefined"],
      w.toList.head? ≠ some '_' := by decide
  have hhead : ("_" ++ s).toList.head? = some '_' := by simp
  exact variable_of_not_mem fun hmem => hwords _ hmem hhead

lemma variable_indexName (name : String) : Variable (indexName name) := variable_underscore name

lemma variable_lengthName (name : String) : Variable (lengthName name) := by
  have hname : lengthName name = "_" ++ ("_" ++ name) := by
    rw [lengthName, ← String.append_assoc]
    rfl
  rw [hname]
  exact variable_underscore _

lemma Variable.primary (h : Variable name) : Derives n .primary [.ident name] (.ident name) :=
  .ident h.free h.other

lemma derives_assignment (h : Derives n .primary ts e) : Derives (n + 1) .assignment ts e :=
  .unassigned (.unconditional (h.operators (by omega)))

def initTokens (name : String) (elements : List TokenKind) : List TokenKind :=
  .ident "var" :: .ident (indexName name) :: .punct .assign :: .number (Decimal.ofInt 0) ::
    .punct .comma :: .ident (lengthName name) :: .punct .assign ::
      (.punct .openParen :: elements ++ [.punct .closeParen]) ++
    .punct .dot :: .ident "length" :: .punct .comma :: [.ident name]

def testTokens (name : String) (elements : List TokenKind) : List TokenKind :=
  .ident name :: .punct .assign :: (.punct .openParen :: elements ++ [.punct .closeParen]) ++
    .punct .openBracket :: .ident (indexName name) :: .punct .closeBracket ::
    .punct .comma :: .ident (indexName name) :: .punct .less :: [.ident (lengthName name)]

def updateTokens (name : String) : List TokenKind :=
  [.punct .plusPlus, .ident (indexName name)]

def headerTokens (name : String) (elements : List TokenKind) : List TokenKind :=
  .ident "for" :: .punct .openParen :: initTokens name elements ++
    .punct .semicolon :: testTokens name elements ++ .punct .semicolon :: updateTokens name ++
    [.punct .closeParen]

lemma initial_init (hname : Variable name) (h : Derives n .expression ts e) :
    Initial (n + 1) (initTokens name ts) (some (init name e)) := by
  have hzero : Derives (n + 1) .assignment [.number (Decimal.ofInt 0)] (.literal (.int 0)) := by
    have hvalue : Value.ofFloat (Decimal.ofInt 0) = .int 0 := Value.ofFloat_ofInt (by decide)
    rw [← hvalue]
    exact derives_assignment (.number _)
  have hlength : Derives (n + 1) .assignment
      ((.punct .openParen :: ts ++ [.punct .closeParen]) ++ [.punct .dot, .ident "length"])
      (.member e "length") := by
    have hstepped := Derives.member "length" (.unstepped (.group h))
    exact .unassigned (.unconditional ((Derives.unjoined (.bare hstepped)).looser (Nat.zero_le _)
      (Nat.le_refl _)))
  have hbindings : Bindings (n + 1) (initTokens name ts).tail
      [(indexName name, some (.literal (.int 0))),
        (lengthName name, some (.member e "length")), (name, none)] := by
    have hlast : Bindings (n + 1) [.ident name] [(name, none)] := .one hname.free .absent
    have hmore := Bindings.more (variable_indexName name).free (.value hzero)
      (.more (variable_lengthName name).free (.value hlength) hlast)
    simpa [initTokens] using hmore
  exact .declare (by decide) hbindings

lemma clause_test (hname : Variable name) (h : Derives (n + 1) .expression ts e) :
    Clause (n + 3) (testTokens name ts) (some (test name e)) := by
  have hindex (m : ℕ) : Derives m .primary [.ident (indexName name)] (.ident (indexName name)) :=
    (variable_indexName name).primary
  have hlength : Derives (n + 2) .primary [.ident (lengthName name)] (.ident (lengthName name)) :=
    (variable_lengthName name).primary
  have helement : Derives (n + 2) .assignment
      ((.punct .openParen :: ts ++ [.punct .closeParen]) ++
        .punct .openBracket :: [.ident (indexName name)] ++ [.punct .closeBracket])
      (.index e (.ident (indexName name))) := by
    have hkey : Derives (n + 1) .expression [.ident (indexName name)] (.ident (indexName name)) :=
      .single (derives_assignment (hindex n))
    have hstepped := Derives.index (.unstepped (.group h)) hkey
    exact .unassigned (.unconditional ((Derives.unjoined (.bare hstepped)).looser (Nat.zero_le _)
      (Nat.le_refl _)))
  have hassign : Derives (n + 3) .assignment (.ident name :: .punct .assign ::
      ((.punct .openParen :: ts ++ [.punct .closeParen]) ++
        .punct .openBracket :: [.ident (indexName name)] ++ [.punct .closeBracket]))
      (.assign .set (.ident name) (.index e (.ident (indexName name)))) :=
    .assign .set (.unconditional (hname.primary.operators (by omega))) rfl helement
  have hless : Derives (n + 3) .assignment
      [.ident (indexName name), .punct .less, .ident (lengthName name)]
      (.binary .less (.ident (indexName name)) (.ident (lengthName name))) := by
    have hjoined : Derives (n + 2) (.operators 3)
        ([.ident (indexName name)] ++ .punct .less :: [.ident (lengthName name)]) _ :=
      .joined .less ((hindex _).operators (by omega)) (hlength.operators (by omega))
    exact .unassigned (.unconditional (hjoined.looser (Nat.zero_le _) (by omega)))
  let compared : Element := ⟨[.ident (indexName name), .punct .less, .ident (lengthName name)],
    .binary .less (.ident (indexName name)) (.ident (lengthName name))⟩
  have hmore : ∀ p ∈ [compared], Derives (n + 3) .assignment p.tokens p.value := by
    simpa using hless
  have hsequence := Derives.sequence hassign (by simp) hmore
  refine .given ?_
  simpa [testTokens, test, compared] using hsequence

lemma clause_update (name : String) :
    Clause (n + 2) (updateTokens name) (some (update name)) := by
  have hindex : Derives (n + 1) .operand [.ident (indexName name)] (.ident (indexName name)) :=
    .operand (.bare (.unstepped (variable_indexName name).primary))
  have hunary : Derives (n + 1) .unary (.punct .plusPlus :: [.ident (indexName name)]) _ :=
    .updateBefore .increment hindex rfl
  exact .given (.single (.unassigned (.unconditional ((Derives.unjoined hunary).looser
    (Nat.zero_le _) (Nat.le_refl _)))))

/-- **A counting loop is read from its header** and from the statement after that. -/
lemma statement_loop {items mid rest : List Item} {inLoop : Bool} {body : Stmt}
    (hname : Variable name) (h : Derives (n + 1) .expression ts e)
    (hspan : Spans items mid (headerTokens name ts))
    (hbody : statement (n + 3) true mid = .ok (body, rest)) :
    statement (n + 4) inLoop items = .ok (loop name e body, rest) := by
  have hinit : Initial (n + 3) (initTokens name ts) (some (init name e)) :=
    initial_init hname (h.mono (by omega))
  exact statement_for hinit (clause_test hname h) (clause_update name) hspan hbody

/-! ### Running -/

variable {tiers : Tiers} {locals mid locals' : Locals} {v w : Value}

lemma eval_ident (h : tiers.value? locals name = some v) :
    eval tiers (.ident name) locals = .ok (v, locals) := by
  have hlookup : tiers.lookup locals name = .ok v := by rw [Tiers.lookup, h]
  rw [eval]
  refine state_bind_ok.mpr ⟨locals, locals, rfl, ?_⟩
  show (StateT.lift (tiers.lookup locals name) : Eval Value) locals = _
  rw [hlookup]
  rfl

lemma eval_local (h : Entries.find? locals name = some v) :
    eval tiers (.ident name) locals = .ok (v, locals) := eval_ident (Tiers.value?_of_find? h)

lemma eval_index {target key : Expr} (ht : eval tiers target locals = .ok (v, mid))
    (hk : eval tiers key mid = .ok (w, locals')) {element : Value}
    (hget : v.getIndex w = .ok element) :
    eval tiers (.index target key) locals = .ok (element, locals') := by
  rw [eval]
  refine state_bind_ok.mpr ⟨_, _, ht, state_bind_ok.mpr ⟨_, _, hk, ?_⟩⟩
  rw [hget]
  rfl

lemma eval_assign {value : Expr} (h : eval tiers value locals = .ok (v, locals')) :
    eval tiers (.assign .set (.ident name) value) locals =
      .ok (v, Entries.put locals' name v) := by
  rw [eval]
  exact state_bind_ok.mpr ⟨_, _, h, rfl⟩

lemma eval_less {left right : Expr} (hl : eval tiers left locals = .ok (v, mid))
    (hr : eval tiers right mid = .ok (w, locals')) :
    eval tiers (.binary .less left right) locals =
      .ok (Value.ordered Ordering.isLT v w, locals') := by
  rw [eval]
  exact state_bind_ok.mpr ⟨_, _, hl, state_bind_ok.mpr ⟨_, _, hr, rfl⟩⟩

lemma eval_pair {first second : Expr} (h₁ : eval tiers first locals = .ok (v, mid))
    (h₂ : eval tiers second mid = .ok (w, locals')) :
    eval tiers (.sequence [first, second]) locals = .ok (w, locals') := by
  have hlist : evalList tiers [first, second] locals = .ok ([v, w], locals') := by
    simp only [evalList]
    exact state_bind_ok.mpr ⟨_, _, h₁, state_bind_ok.mpr ⟨_, _,
      state_bind_ok.mpr ⟨_, _, h₂, rfl⟩, rfl⟩⟩
  rw [eval]
  exact state_bind_ok.mpr ⟨_, _, hlist, rfl⟩

lemma indexName_ne (name : String) : indexName name ≠ name := fun h => by
  have hlen := congrArg String.length h
  simp [indexName] at hlen

lemma lengthName_ne (name : String) : lengthName name ≠ name := fun h => by
  have hlen := congrArg String.length h
  simp [lengthName] at hlen

lemma lengthName_ne_indexName (name : String) : lengthName name ≠ indexName name := fun h => by
  have hlen := congrArg String.length h
  have hlong : "__".length = 2 := rfl
  have hshort : "_".length = 1 := rfl
  rw [lengthName, indexName, String.length_append, String.length_append] at hlen
  omega

/-- The loop is at an element: its index and its length are what they should be, and nothing hides
the elements. -/
structure At (name source : String) (length i : ℕ) (locals : Locals) : Prop where
  index : Entries.find? locals (indexName name) = some (.int i)
  length : Entries.find? locals (lengthName name) = some (.int length)
  source : Entries.find? locals source = none

/-- The variable of the loop may be assigned. -/
lemma At.put {source : String} {length i : ℕ} (h : At name source length i locals)
    (hsource : source ≠ name) (v : Value) : At name source length i (Entries.put locals name v) :=
  ⟨by rw [Entries.find?_put_of_ne (indexName_ne name), h.index],
    by rw [Entries.find?_put_of_ne (lengthName_ne name), h.length],
    by rw [Entries.find?_put_of_ne hsource, h.source]⟩

lemma At.next {source : String} {length i : ℕ} (h : At name source length i locals)
    (hsource : source ≠ indexName name) (j : ℕ) :
    At name source length j (Entries.put locals (indexName name) (.int j)) :=
  ⟨Entries.find?_put_self _ _ _,
    by rw [Entries.find?_put_of_ne (lengthName_ne_indexName name), h.length],
    by rw [Entries.find?_put_of_ne hsource, h.source]⟩

variable {source : String} {items : List Value} {i : ℕ}

lemma eval_source (h : At name source items.length i locals)
    (hitems : tiers.scopeValue? source = some (.arr items)) :
    eval tiers (.ident source) locals = .ok (.arr items, locals) :=
  eval_ident (by rw [Tiers.value?, h.source, Option.none_or, hitems, Option.some_or])

/-- The test assigns the element and then compares the index with the length. -/
lemma eval_test (h : At name source items.length i locals) (hsource : source ≠ name)
    (hitems : tiers.scopeValue? source = some (.arr items)) (hi : i < 2 ^ 53)
    (hlength : items.length < 2 ^ 53) :
    eval tiers (test name (.ident source)) locals =
      .ok (.bool (decide (i < items.length)),
        Entries.put locals name (items[i]?.getD .null)) := by
  have helement : eval tiers (.index (.ident source) (.ident (indexName name))) locals =
      .ok (items[i]?.getD .null, locals) :=
    eval_index (eval_source h hitems) (eval_local h.index) (Value.getIndex_arr items (by omega))
  have hat := h.put hsource (items[i]?.getD .null)
  refine eval_pair (eval_assign helement) ?_
  rw [eval_less (eval_local hat.index) (eval_local hat.length),
    Value.ordered_isLT_int hi hlength]

/-- The update moves the index on. -/
lemma eval_update (h : Entries.find? locals (indexName name) = some (.int i))
    (hi : i + 1 < 2 ^ 53) :
    eval tiers (update name) locals =
      .ok (.int (i + 1 : ℕ), Entries.put locals (indexName name) (.int (i + 1 : ℕ))) := by
  have hnext : Value.ofFloat (UpdateOp.increment.apply (Value.int i).toNumber) =
      .int (i + 1 : ℕ) := Value.ofFloat_toNumber_add_one hi
  rw [← hnext, update, eval]
  refine state_bind_ok.mpr ⟨_, _, eval_local h, ?_⟩
  have hplace : place tiers (.ident (indexName name)) locals =
      .ok ((indexName name, []), locals) := by
    rw [place]
    rfl
  refine state_bind_ok.mpr ⟨_, _, hplace, state_bind_ok.mpr ⟨(), _, rfl, rfl⟩⟩

lemma evalOption_update (h : Entries.find? locals (indexName name) = some (.int i))
    (hi : i + 1 < 2 ^ 53) :
    evalOption tiers (some (update name)) locals =
      .ok (some (.int (i + 1 : ℕ)), Entries.put locals (indexName name) (.int (i + 1 : ℕ))) := by
  rw [evalOption, map_eq_pure_bind]
  exact state_bind_ok.mpr ⟨_, _, eval_update h hi, rfl⟩

/-- What the loop declares before its first round. -/
lemma declareAll_init {length : ℕ}
    (h : eval tiers (.member e "length") (Entries.put locals (indexName name) (.int 0)) =
      .ok (.int length, mid)) :
    declareAll tiers (init name e).bindings locals =
      .ok ((), tiers.declare (Entries.put mid (lengthName name) (.int length)) name none) := by
  have hzero : evalOption tiers (some (.literal (.int 0))) locals = .ok (some (.int 0), locals) := by
    rw [evalOption, eval]
    rfl
  have hlength : evalOption tiers (some (.member e "length"))
      (Entries.put locals (indexName name) (.int 0)) = .ok (some (.int length), mid) := by
    rw [evalOption, map_eq_pure_bind]
    exact state_bind_ok.mpr ⟨_, _, h, rfl⟩
  simp only [init, Stmt.bindings, declareAll]
  refine state_bind_ok.mpr ⟨_, _, hzero, state_bind_ok.mpr ⟨(), _, rfl, ?_⟩⟩
  refine state_bind_ok.mpr ⟨_, _, hlength, state_bind_ok.mpr ⟨(), _, rfl, ?_⟩⟩
  exact state_bind_ok.mpr ⟨none, _, rfl, state_bind_ok.mpr ⟨(), _, rfl, rfl⟩⟩

/-- Before the first round the index is zero. -/
lemma at_init (hsource : Entries.find? locals source = none) (hname : source ≠ name)
    (hindex : source ≠ indexName name) (hlength : source ≠ lengthName name)
    (hitems : tiers.scopeValue? source = some (.arr items)) :
    ∃ locals', At name source items.length 0 locals' ∧
      declareAll tiers (init name (.ident source)).bindings locals = .ok ((), locals') := by
  let first := Entries.put locals (indexName name) (.int 0)
  let second := Entries.put first (lengthName name) (.int items.length)
  have hfirst : Entries.find? first source = none := by
    rw [Entries.find?_put_of_ne hindex, hsource]
  have hsecond : At name source items.length 0 second := by
    refine ⟨?_, Entries.find?_put_self _ _ _, ?_⟩
    · rw [Entries.find?_put_of_ne (lengthName_ne_indexName name).symm]
      exact Entries.find?_put_self _ _ _
    · rw [Entries.find?_put_of_ne hlength, hfirst]
  have hmember : eval tiers (.member (.ident source) "length") first =
      .ok (.int items.length, first) := by
    have hident : eval tiers (.ident source) first = .ok (.arr items, first) :=
      eval_ident (by rw [Tiers.value?, hfirst, Option.none_or, hitems, Option.some_or])
    rw [eval]
    exact state_bind_ok.mpr ⟨_, _, hident, rfl⟩
  refine ⟨_, ?_, declareAll_init hmember⟩
  rw [Tiers.declare]
  split
  · exact hsecond
  · exact hsecond.put hname _

/-! ### Rounds -/

variable {out : String} {α : Type}

lemma ofEval_ok {x : Eval α} {a : α} (h : x locals = .ok (a, locals')) :
    ofEval x ⟨locals, out⟩ = some (.ok (a, ⟨locals', out⟩)) := by
  rw [ofEval, h]
  rfl

lemma discard_ok {x : Exec α} {a : α} {frame frame' : Frame}
    (h : x frame = some (.ok (a, frame'))) : discard x frame = some (.ok ((), frame')) := by
  show (x >>= fun _ => pure ()) frame = _
  exact run_bind_ok.mpr ⟨_, _, h, rfl⟩

lemma holds_ok (h : eval tiers e locals = .ok (v, locals')) :
    holds tiers (some e) locals = .ok (v.isTruthy, locals') := by
  rw [holds]
  exact state_bind_ok.mpr ⟨_, _, h, rfl⟩

/-- After its declarations a loop goes through its rounds. -/
lemma exec_loop_eq {bound : ℕ} {body : Stmt}
    (h : declareAll tiers (init name e).bindings locals = .ok ((), locals')) :
    exec tiers bound (loop name e body) ⟨locals, out⟩ =
      (do rounds bound (loopRound tiers (some (test name e)) (some (update name))
            (exec tiers bound body))
          return .normal : Exec Flow) ⟨locals', out⟩ := by
  have hinit : execOption tiers bound (some (init name e)) ⟨locals, out⟩ =
      some (.ok (.normal, ⟨locals', out⟩)) := by
    rw [execOption, init, exec]
    exact run_bind_ok.mpr ⟨(), _, ofEval_ok h, rfl⟩
  rw [loop, exec, run_bind, discard_ok hinit]

/-- A body that shows the value of a variable and leaves everything else as it is. -/
def Displays (body : Exec Flow) (name : String) (shown : Value → String) : Prop :=
  ∀ ⦃locals v⦄ (out : String), Entries.find? locals name = some v →
    body ⟨locals, out⟩ = some (.ok (.normal, ⟨locals, out ++ shown v⟩))

variable {body : Exec Flow} {shown : Value → String}

/-- A round shows the element at the index and moves on. -/
lemma loopRound_next (hbody : Displays body name shown)
    (h : At name source items.length i locals) (hsource : source ≠ name)
    (hindex : source ≠ indexName name) (hitems : tiers.scopeValue? source = some (.arr items))
    (hlength : items.length < 2 ^ 53) (hi : i < items.length) (out : String) :
    ∃ locals', At name source items.length (i + 1) locals' ∧
      loopRound tiers (some (test name (.ident source))) (some (update name)) body ⟨locals, out⟩ =
        some (.ok (true, ⟨locals', out ++ shown items[i]⟩)) := by
  have htest := eval_test h hsource hitems (by omega) hlength
  rw [decide_eq_true hi, List.getElem?_eq_getElem hi, Option.getD_some] at htest
  have hat := h.put hsource items[i]
  have hshow := hbody out (Entries.find?_put_self locals name items[i])
  have hupdate : evalOption tiers (some (update name)) (Entries.put locals name items[i]) =
      .ok (some (.int (i + 1 : ℕ)), _) := evalOption_update hat.index (by omega)
  refine ⟨_, hat.next hindex (i + 1), ?_⟩
  rw [loopRound]
  refine run_bind_ok.mpr ⟨true, _, ofEval_ok (holds_ok htest), ?_⟩
  rw [if_pos rfl]
  refine run_bind_ok.mpr ⟨.normal, _, hshow, ?_⟩
  rw [if_neg (by decide)]
  exact run_bind_ok.mpr ⟨(), _, discard_ok (ofEval_ok hupdate), rfl⟩

/-- The round after the last element ends the loop. -/
lemma loopRound_last (h : At name source items.length items.length locals)
    (hsource : source ≠ name) (hitems : tiers.scopeValue? source = some (.arr items))
    (hlength : items.length < 2 ^ 53) (body : Exec Flow) (out : String) :
    ∃ locals', loopRound tiers (some (test name (.ident source))) (some (update name)) body
      ⟨locals, out⟩ = some (.ok (false, ⟨locals', out⟩)) := by
  have htest := eval_test h hsource hitems hlength hlength
  rw [decide_eq_false (Nat.lt_irrefl _)] at htest
  refine ⟨Entries.put locals name (items[items.length]?.getD .null), ?_⟩
  rw [loopRound]
  refine run_bind_ok.mpr ⟨false, _, ofEval_ok (holds_ok htest), ?_⟩
  rw [if_neg (by decide)]
  rfl

/-- From an element on the rounds show the elements that are left. -/
lemma rounds_loop {bound : ℕ} (hbody : Displays body name shown) (hsource : source ≠ name)
    (hindex : source ≠ indexName name) (hitems : tiers.scopeValue? source = some (.arr items))
    (hlength : items.length < 2 ^ 53) (h : At name source items.length i locals)
    (hi : i ≤ items.length) (hbound : items.length - i < bound) (out : String) :
    ∃ locals', rounds bound
      (loopRound tiers (some (test name (.ident source))) (some (update name)) body)
      ⟨locals, out⟩ =
        some (.ok ((), ⟨locals', out ++ String.join ((items.drop i).map shown)⟩)) := by
  induction bound generalizing i locals out with
  | zero => omega
  | succ bound ih =>
    rw [rounds]
    rcases Nat.lt_or_eq_of_le hi with hlt | rfl
    · obtain ⟨mid, hmid, hround⟩ :=
        loopRound_next hbody h hsource hindex hitems hlength hlt out
      obtain ⟨locals', hrest⟩ := ih hmid hlt (by omega) (out ++ shown items[i])
      refine ⟨locals', run_bind_ok.mpr ⟨true, _, hround, ?_⟩⟩
      rw [if_pos rfl, hrest, List.drop_eq_getElem_cons hlt, List.map_cons, String.join_cons,
        String.append_assoc]
    · obtain ⟨locals', hround⟩ := loopRound_last h hsource hitems hlength body out
      refine ⟨locals', run_bind_ok.mpr ⟨false, _, hround, ?_⟩⟩
      rw [if_neg (by decide), List.drop_length]
      simp
      rfl

/-- **A counting loop shows all elements in order**, if the bound leaves room for one round more
than there are elements. -/
theorem exec_loop {bound : ℕ} {body : Stmt} (hbody : Displays (exec tiers bound body) name shown)
    (hname : source ≠ name) (hindex : source ≠ indexName name)
    (hlengthName : source ≠ lengthName name)
    (hitems : tiers.scopeValue? source = some (.arr items)) (hlength : items.length < 2 ^ 53)
    (hbound : items.length < bound) (hlocals : Entries.find? locals source = none) (out : String) :
    ∃ locals', exec tiers bound (loop name (.ident source) body) ⟨locals, out⟩ =
      some (.ok (.normal, ⟨locals', out ++ String.join (items.map shown)⟩)) := by
  obtain ⟨first, hfirst, hdeclare⟩ := at_init hlocals hname hindex hlengthName hitems
  obtain ⟨last, hrounds⟩ := rounds_loop hbody hname hindex hitems hlength hfirst
    (Nat.zero_le _) hbound out
  refine ⟨last, ?_⟩
  rw [exec_loop_eq hdeclare]
  exact run_bind_ok.mpr ⟨(), _, hrounds, rfl⟩

end Counting

end Stencil.Script
