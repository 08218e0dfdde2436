import Stencil.Proofs.Script.Counting
import Stencil.Proofs.Script.Ignoring
import Stencil.Proofs.Script.Rounds

/-!
Counting loops with bodies of any kind.

The test of such a loop looks at its index and its length only. A body that does not write to these
two variables cannot keep the loop from its end, whatever it does to the elements, to the variable
of the loop and to all others.
-/

namespace Stencil

namespace Script

open Eval Exec

variable {tiers : Tiers} {bound : ℕ} {locals mid : Locals} {e : Expr} {v : Value}

/-! ### Variables that hold a number -/

/-- Nothing in the statement assigns or updates the variable, or declares it with a value. -/
structure Stmt.Spares (s : Stmt) (name : String) : Prop where
  writes : ∀ x ∈ s.parts, ∀ whole ∈ x.exprs, ∀ e ∈ whole.parts, e.target? ≠ some (.ident name)
  declares : ∀ x ∈ s.parts, ∀ init, (name, some init) ∉ x.bindings

variable {name : String} {i : Int}

/-- A number has no properties that could be written. -/
lemma setPath_int_ne_ok {key : String} {keys : List String} {new : Value} :
    (Value.int i).setPath key keys v ≠ .ok new := by
  cases keys <;> exact nofun

lemma keeps_store {root : String} {path : List String} (h : root = name → path ≠ []) (v : Value) :
    (store tiers root path v).Keeps (fun locals => Entries.find? locals name = some (.int i))
      fun _ => True := by
  intro locals hfind
  refine ⟨fun _ locals' hstore => ?_, fun _ _ => trivial⟩
  by_cases hroot : root = name
  · -- the number would have to have a property
    obtain ⟨key, keys, rfl⟩ := List.exists_cons_of_ne_nil (h hroot)
    obtain ⟨old, new, hlookup, hset, -⟩ := store_path_ok.mp hstore
    rw [hroot, Tiers.lookup_of_find? hfind] at hlookup
    cases hlookup
    exact (setPath_int_ne_ok hset).elim
  · exact (store_others hstore (Ne.symm hroot)).trans hfind

lemma Stmt.Spares.keeps {s : Stmt} (h : s.Spares name) : ∀ x ∈ s.parts,
    x.Keeps tiers (fun locals => Entries.find? locals name = some (.int i)) fun _ => True :=
  fun x hx =>
  { exprs := fun whole hwhole => eval_keeps whole fun e he =>
      { lookup := fun _ _ _ _ _ _ => trivial
        callee := fun _ _ _ _ _ _ _ => trivial
        helper := fun _ _ _ _ => trivial
        property := fun _ _ => trivial
        place := fun _ _ => .inr trivial
        write := fun target ht _ path hpath => by
          refine keeps_store fun hroot hnil => ?_
          have hident : target = .ident name := by rw [hpath.mp hnil, hroot]
          exact h.writes x hx whole hwhole e he.mem_parts (by rw [Option.mem_def.mp ht, hident]) }
    declared := fun m w ⟨init, hmem, hsome⟩ locals hfind => by
      by_cases hm : m = name
      · subst hm
        cases init with
        | some init => exact (h.declares x hx init hmem).elim
        | none =>
          obtain rfl : w = none := by simpa using hsome
          rw [Tiers.declare_of_value (Tiers.value?_of_find? hfind), hfind]
      · rw [Tiers.find?_declare_of_ne (Ne.symm hm), hfind] }

/-- A variable that holds a number still holds it after a statement that spares it. -/
lemma find?_exec {s : Stmt} {frame last : Frame} {flow : Flow} (h : s.Spares name)
    (hfind : Entries.find? frame.locals name = some (.int i))
    (hs : exec tiers bound s frame = some (.ok (flow, last))) :
    Entries.find? last.locals name = some (.int i) :=
  ((exec_ensures s h.keeps hfind).1 flow last hs).1

lemma find?_eval (h : name ∉ e.names) (he : eval tiers e locals = .ok (v, mid)) :
    Entries.find? mid name = Entries.find? locals name :=
  (eval_ignores e h (fun _ _ => rfl) he).1

namespace Counting

/-! ### One round -/

variable {name : String} {body : Stmt} {length k : ℕ} {frame first : Frame}

/-- The index and the length have their values. -/
structure Counts (name : String) (length k : ℕ) (locals : Locals) : Prop where
  index : Entries.find? locals (indexName name) = some (.int k)
  length : Entries.find? locals (lengthName name) = some (.int length)

/-- The elements do not mention the index and the length, and the body does not write to them. -/
structure Untouched (name : String) (e : Expr) (body : Stmt) : Prop where
  index : indexName name ∉ e.names
  length : lengthName name ∉ e.names
  bodyIndex : body.Spares (indexName name)
  bodyLength : body.Spares (lengthName name)

lemma Counts.put (h : Counts name length k locals) (v : Value) :
    Counts name length k (Entries.put locals name v) :=
  ⟨by rw [Entries.find?_put_of_ne (indexName_ne name), h.index],
    by rw [Entries.find?_put_of_ne (lengthName_ne name), h.length]⟩

lemma Counts.next (h : Counts name length k locals) (j : ℕ) :
    Counts name length j (Entries.put locals (indexName name) (.int j)) :=
  ⟨Entries.find?_put_self _ _ _,
    by rw [Entries.find?_put_of_ne (lengthName_ne_indexName name), h.length]⟩

lemma Counts.eval_element (h : Counts name length k locals) (hfree : Untouched name e body)
    {i : Int} (he : eval tiers (.index e (.literal (.int i))) locals = .ok (v, mid)) :
    Counts name length k mid := by
  have hindex : indexName name ∉ (Expr.index e (.literal (.int i))).names := by
    simpa using hfree.index
  have hlength : lengthName name ∉ (Expr.index e (.literal (.int i))).names := by
    simpa using hfree.length
  exact ⟨(find?_eval hindex he).trans h.index, (find?_eval hlength he).trans h.length⟩

/-- The element at the index is the one at the number that the index holds. -/
lemma eval_element (h : Entries.find? locals (indexName name) = some (.int k))
    (hfree : indexName name ∉ e.names) :
    eval tiers (.index e (.ident (indexName name))) locals =
      eval tiers (.index e (.literal (.int k))) locals := by
  rw [eval, eval]
  refine state_bind_congr_at fun target mid he => ?_
  have hkey : eval tiers (.ident (indexName name)) mid = eval tiers (.literal (.int k)) mid := by
    rw [eval_local ((find?_eval hfree he).trans h), eval]
    rfl
  exact congrArg (· >>= fun p => ofProperty (target.getIndex p.1) p.2) hkey

/-- The test looks up the element, assigns it to the variable, and compares the index with the
length. It fails only where there is no element to look up. -/
lemma holds_test (h : Counts name length k locals) (hfree : Untouched name e body)
    (hk : k < 2 ^ 53) (hlength : length < 2 ^ 53) :
    holds tiers (some (test name e)) locals =
      (fun p => (decide (k < length), Entries.put p.2 name p.1)) <$>
        eval tiers (.index e (.literal (.int k))) locals := by
  have hindex : eval tiers (.index e (.ident (indexName name))) locals =
      eval tiers (.index e (.literal (.int k))) locals := eval_element h.index hfree.index
  rcases he : eval tiers (.index e (.literal (.int k))) locals with err | ⟨v, mid⟩
  · have hassign : eval tiers (.assign .set (.ident name) (.index e (.ident (indexName name))))
        locals = .error err := by
      rw [eval]
      exact state_bind_error.mpr (.inl (hindex.trans he))
    have htest : eval tiers (test name e) locals = .error err := by
      rw [test, eval]
      simp only [evalList]
      exact state_bind_error.mpr (.inl (state_bind_error.mpr (.inl hassign)))
    rw [holds]
    exact state_bind_error.mpr (.inl htest)
  · have hassign : eval tiers (.assign .set (.ident name) (.index e (.ident (indexName name))))
        locals = .ok (v, Entries.put mid name v) := eval_assign (hindex.trans he)
    have hat := (h.eval_element hfree he).put v
    have hless : eval tiers (.binary .less (.ident (indexName name)) (.ident (lengthName name)))
        (Entries.put mid name v) = .ok (.bool (decide (k < length)), Entries.put mid name v) := by
      rw [eval_less (eval_local hat.index) (eval_local hat.length),
        Value.ordered_isLT_int hk hlength]
    exact holds_ok (eval_pair hassign hless)

/-- What the test does in a frame. -/
lemma ofEval_test {b : Bool} {entry : Frame} (h : Counts name length k frame.locals)
    (hfree : Untouched name e body) (hk : k < 2 ^ 53) (hlength : length < 2 ^ 53) :
    ofEval (holds tiers (some (test name e))) frame = some (.ok (b, entry)) ↔
      b = decide (k < length) ∧
        ∃ v mid, eval tiers (.index e (.literal (.int k))) frame.locals = .ok (v, mid) ∧
          entry = ⟨Entries.put mid name v, frame.out⟩ := by
  rw [ofEval_eq_ok, holds_test h hfree hk hlength]
  rcases eval tiers (.index e (.literal (.int k))) frame.locals with err | ⟨v, mid⟩
  · constructor
    · rintro ⟨h, -⟩
      cases h
    · rintro ⟨-, _, _, h, -⟩
      cases h
  · constructor
    · rintro ⟨h, hout⟩
      obtain ⟨locals, out⟩ := entry
      cases h
      cases hout
      exact ⟨rfl, v, mid, rfl, rfl⟩
    · rintro ⟨rfl, _, _, h, rfl⟩
      cases h
      exact ⟨rfl, rfl⟩

/-- A body that has been started leaves the index and the length as they are. -/
lemma counts_body {entry last : Frame} {flow : Flow} (h : Counts name length k frame.locals)
    (hfree : Untouched name e body) (hk : k ≤ length) (hlength : length < 2 ^ 53)
    (hholds : ofEval (holds tiers (some (test name e))) frame = some (.ok (true, entry)))
    (hbody : exec tiers bound body entry = some (.ok (flow, last))) :
    k < length ∧ Counts name length k last.locals := by
  obtain ⟨hlt, v, mid, helement, rfl⟩ := (ofEval_test h hfree (by omega) hlength).mp hholds
  have hentry : Counts name length k (Entries.put mid name v) := (h.eval_element hfree helement).put v
  exact ⟨by simpa using hlt, find?_exec hfree.bodyIndex hentry.index hbody,
    find?_exec hfree.bodyLength hentry.length hbody⟩

/-- What the update does in a frame. -/
lemma ofEval_update {last : Frame} {o : Option Value} (h : Counts name length k frame.locals)
    (hk : k + 1 < 2 ^ 53) :
    ofEval (evalOption tiers (some (update name))) frame = some (.ok (o, last)) ↔
      o = some (.int (k + 1 : ℕ)) ∧
        last = ⟨Entries.put frame.locals (indexName name) (.int (k + 1 : ℕ)), frame.out⟩ := by
  obtain ⟨locals, out⟩ := last
  rw [ofEval_eq_ok, evalOption_update h.index hk]
  simp only [Except.ok.injEq, Prod.mk.injEq, Frame.mk.injEq]
  tauto

/-! ### All rounds -/

/-- The loop is at its test after so many rounds. -/
abbrev LoopTests (tiers : Tiers) (bound : ℕ) (name : String) (e : Expr) (body : Stmt) :
    Frame → ℕ → Frame → Prop :=
  Tests tiers (some (test name e)) (some (update name)) (exec tiers bound body)

/-- The loop starts its body after so many rounds. -/
abbrev LoopStarts (tiers : Tiers) (bound : ℕ) (name : String) (e : Expr) (body : Stmt) :
    Frame → ℕ → Frame → Frame → Prop :=
  Starts tiers (some (test name e)) (some (update name)) (exec tiers bound body)

/-- The body is started with its number in the index and with the element at that number, which
was looked up in the frame of the test. -/
structure Enters (tiers : Tiers) (name : String) (e : Expr) (k : ℕ) (frame entry : Frame) :
    Prop where
  index : Entries.find? entry.locals (indexName name) = some (.int k)
  element : ∃ v mid, eval tiers (.index e (.literal (.int k))) frame.locals = .ok (v, mid) ∧
    Entries.find? entry.locals name = some v ∧ entry = ⟨Entries.put mid name v, frame.out⟩

/-- No body breaks the loop, fails or comes to no end, and no look-up of an element fails. -/
structure Smooth (tiers : Tiers) (bound : ℕ) (name : String) (e : Expr) (body : Stmt)
    (first : Frame) : Prop where
  ends : ∀ k f entry, LoopStarts tiers bound name e body first k f entry →
    ∃ flow last, exec tiers bound body entry = some (.ok (flow, last)) ∧ flow ≠ .leave
  element : ∀ k f, LoopTests tiers bound name e body first k f →
    ∃ v mid, eval tiers (.index e (.ident (indexName name))) f.locals = .ok (v, mid)

section Rounds

variable {entry : Frame} (hfirst : Counts name length 0 first.locals)
  (hfree : Untouched name e body) (hlength : length < 2 ^ 53)

include hfirst hfree hlength

/-- The index counts the rounds, and there are no more of them than elements. -/
lemma counts_of_tests (h : LoopTests tiers bound name e body first k frame) :
    k ≤ length ∧ Counts name length k frame.locals := by
  induction h with
  | first => exact ⟨Nat.zero_le _, hfirst⟩
  | @again k frame last _ hround ih =>
    obtain ⟨hk, hcounts⟩ := ih
    obtain ⟨entry, hholds, flow, mid, hbody, -, o, hupdate⟩ := loopRound_true.mp hround
    obtain ⟨hlt, hmid⟩ := counts_body hcounts hfree hk hlength hholds hbody
    obtain ⟨-, rfl⟩ := (ofEval_update hmid (by omega)).mp hupdate
    exact ⟨hlt, hmid.next (k + 1)⟩

lemma Smooth.tested (h : Smooth tiers bound name e body first)
    (htests : LoopTests tiers bound name e body first k frame) :
    ∃ entry, ofEval (holds tiers (some (test name e))) frame =
      some (.ok (decide (k < length), entry)) := by
  obtain ⟨hk, hcounts⟩ := counts_of_tests hfirst hfree hlength htests
  obtain ⟨v, mid, helement⟩ := h.element k frame htests
  rw [eval_element hcounts.index hfree.index] at helement
  exact ⟨_, (ofEval_test hcounts hfree (by omega) hlength).mpr ⟨rfl, v, mid, helement, rfl⟩⟩

lemma Smooth.round (h : Smooth tiers bound name e body first)
    (hstarts : LoopStarts tiers bound name e body first k frame entry) :
    ∃ last, LoopTests tiers bound name e body first (k + 1) last := by
  obtain ⟨hk, hcounts⟩ := counts_of_tests hfirst hfree hlength hstarts.tests
  obtain ⟨flow, after, hbody, hleave⟩ := h.ends k frame entry hstarts
  obtain ⟨hlt, hafter⟩ := counts_body hcounts hfree hk hlength hstarts.holds hbody
  have hupdate : ofEval (evalOption tiers (some (update name))) after = some (.ok _) :=
    (ofEval_update hafter (by omega)).mpr ⟨rfl, rfl⟩
  exact ⟨_, .again hstarts.tests
    (loopRound_true.mpr ⟨_, hstarts.holds, flow, after, hbody, hleave, _, hupdate⟩)⟩

/-- Such a loop comes to its test once more than there are elements. -/
lemma Smooth.tests (h : Smooth tiers bound name e body first) (hk : k ≤ length) :
    ∃ f, LoopTests tiers bound name e body first k f := by
  induction k with
  | zero => exact ⟨first, .first⟩
  | succ k ih =>
    obtain ⟨f, htests⟩ := ih (by omega)
    obtain ⟨entry, hholds⟩ := h.tested hfirst hfree hlength htests
    rw [decide_eq_true (Nat.lt_of_succ_le hk)] at hholds
    exact h.round hfirst hfree hlength ⟨htests, hholds⟩

/-- With room for the last test, such a loop comes to its end. -/
lemma Smooth.rounds (h : Smooth tiers bound name e body first) (hbound : length < bound) :
    ∃ last, Exec.rounds bound (loopRound tiers (some (test name e)) (some (update name))
      (exec tiers bound body)) first = some (.ok ((), last)) := by
  obtain ⟨f, htests⟩ := h.tests hfirst hfree hlength (Nat.le_refl length)
  obtain ⟨entry, hholds⟩ := h.tested hfirst hfree hlength htests
  rw [decide_eq_false (Nat.lt_irrefl _)] at hholds
  obtain ⟨n, hn⟩ : ∃ n, bound = length + (n + 1) := ⟨bound - length - 1, by omega⟩
  have hrest := rounds_of_tests htests (n + 1)
  rw [← hn, Exec.rounds] at hrest
  refine ⟨entry, hrest.trans (run_bind_ok.mpr ⟨false, entry, ?_, rfl⟩)⟩
  rw [loopRound]
  exact run_bind_ok.mpr ⟨false, entry, hholds, rfl⟩

end Rounds

/-! ### The loop -/

end Counting

end Script

end Stencil
