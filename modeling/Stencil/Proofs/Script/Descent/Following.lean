import Stencil.Proofs.Script.Descent
import Stencil.Proofs.Script.Progress

/-!
Descents that follow a reader.

A descent follows a reader where, if enough calls may be open in it, it ends with what the reader
makes of the items that are left. By then it has closed what it opened. One rule for each way to
compose readers carries this from the parts of a descent to the whole.
-/

namespace Stencil.Script

/-- The fault that a failure is among the items. At their end it is on the line of the last one. -/
def Failure.fault (f : Failure) (items : List Item) : Fault :=
  ⟨f.cause, f.line?.getD ((items.getLast?.map Item.line).getD 1)⟩

/-! ### Cursors -/

namespace Cursor

variable {c mid c' : Cursor} {items : List Item}

/-- From one cursor to the other all that was opened has been closed, and no more levels have been
open than there may be. -/
structure Keeps (c c' : Cursor) : Prop where
  depth : c'.depth = c.depth
  loops : c'.loops = c.loops
  deepest : c'.deepest ≤ max c.deepest maxNesting

lemma Keeps.refl (c : Cursor) : c.Keeps c := ⟨rfl, rfl, Nat.le_max_left _ _⟩

lemma Keeps.trans (h : c.Keeps mid) (h' : mid.Keeps c') : c.Keeps c' where
  depth := h'.depth.trans h.depth
  loops := h'.loops.trans h.loops
  deepest := by
    have := h.deepest
    have := h'.deepest
    omega

lemma keeps_forward : c.Keeps c.forward := ⟨rfl, rfl, Nat.le_max_left _ _⟩

/-- A level may be opened for a call that keeps to the rules. -/
lemma Keeps.level (hd : c.depth < maxNesting) (h : c.openLevel.Keeps c') :
    c.Keeps c'.closeLevel where
  depth := by
    have : c'.depth = c.depth + 1 := h.depth
    simp only [closeLevel]
    omega
  loops := h.loops
  deepest := by
    have : c'.deepest ≤ max (max c.deepest (c.depth + 1)) maxNesting := h.deepest
    simp only [closeLevel]
    omega

lemma Keeps.loop (h : c.openLoop.Keeps c') : c.Keeps c'.closeLoop where
  depth := h.depth
  loops := by
    have : c'.loops = c.loops + 1 := h.loops
    simp only [closeLoop]
    omega
  deepest := h.deepest

lemma rest_forward : c.forward.rest items = (c.rest items).tail := (List.tail_drop ..).symm

lemma rest_isEmpty : (c.rest items).isEmpty = decide (items.length ≤ c.position) := by
  rw [Bool.eq_iff_iff]
  simp [rest]

/-- The line of the next item is that of the first one that is left. -/
lemma head?_rest : (c.rest items).head? = items[c.position]? := List.head?_drop ..

lemma length_rest : (c.rest items).length = items.length - c.position := List.length_drop ..

lemma lt_length (h : c.rest items ≠ []) : c.position < items.length := by
  by_contra hle
  exact h (List.drop_eq_nil_of_le (by omega))

/-- At the cursor so many levels and loops are open, and less than so many items are left. -/
structure At (items : List Item) (d l n : ℕ) (c : Cursor) : Prop where
  depth : c.depth = d
  loops : c.loops = l
  length : (c.rest items).length < n

lemma At.keeps {d l n : ℕ} (h : c.At items d l n) (hk : c.Keeps c')
    (hle : c.position ≤ c'.position) : c'.At items d l n where
  depth := hk.depth.trans h.depth
  loops := hk.loops.trans h.loops
  length := by
    have := h.length
    rw [length_rest] at *
    omega

lemma At.less {d l m n : ℕ} (h : c.At items d l m) (hn : (c.rest items).length < n) :
    c.At items d l n := ⟨h.depth, h.loops, hn⟩

lemma At.succ {d l n : ℕ} (h : c.At items d l n) : c.At items d l (n + 1) :=
  h.less (Nat.lt_succ_of_lt h.length)

end Cursor

namespace Descent

open Reader

variable {α β : Type} {items : List Item} {d l n : ℕ} {c c' : Cursor}

/-! ### Ends -/

/-- With as many calls open in it as it needs, or more, the descent ends with a result at a
cursor. -/
def EndsWith (x : ℕ → Descent α) (c : Cursor) (result : Except Fault α) (c' : Cursor) : Prop :=
  ∃ k, ∀ m, k ≤ m → x m c = some (result, c')

lemma endsWith_of_eq {x : Descent α} {result : Except Fault α} (h : x c = some (result, c')) :
    EndsWith (fun _ => x) c result c' := ⟨0, fun _ _ => h⟩

/-- One call more may have to be open. -/
lemma EndsWith.call {x y : ℕ → Descent α} {result : Except Fault α} (h : EndsWith y c result c')
    (hx : ∀ m, x (m + 1) c = y m c) : EndsWith x c result c' := by
  obtain ⟨k, hk⟩ := h
  refine ⟨k + 1, fun m hm => ?_⟩
  obtain _ | m := m
  · omega
  · rw [hx]
    exact hk m (by omega)

lemma bind_run {x : Descent α} {f : α → Descent β} :
    (x >>= f) c = (x c).bind fun p => ExceptT.bindCont f p.1 p.2 := rfl

lemma bind_of_run {x : Descent α} {f : α → Descent β} {a : α} (h : x c = some (.ok a, c')) :
    (x >>= f) c = f a c' := by
  rw [bind_run, h]
  rfl

lemma bind_of_fault {x : Descent α} {f : α → Descent β} {e : Fault}
    (h : x c = some (.error e, c')) : (x >>= f) c = some (.error e, c') := by
  rw [bind_run, h]
  rfl

lemma EndsWith.bind {x : ℕ → Descent α} {f : α → ℕ → Descent β} {a : α} {mid : Cursor}
    {result : Except Fault β} (hx : EndsWith x c (.ok a) mid)
    (hf : EndsWith (f a) mid result c') :
    EndsWith (fun m => x m >>= fun a => f a m) c result c' := by
  obtain ⟨j, hj⟩ := hx
  obtain ⟨k, hk⟩ := hf
  exact ⟨max j k, fun m hm => (bind_of_run (hj m (by omega))).trans (hk m (by omega))⟩

lemma EndsWith.bind_fault {x : ℕ → Descent α} {f : α → ℕ → Descent β} {e : Fault}
    (hx : EndsWith x c (.error e) c') :
    EndsWith (fun m => x m >>= fun a => f a m) c (.error e) c' := by
  obtain ⟨k, hk⟩ := hx
  exact ⟨k, fun m hm => bind_of_fault (hk m hm)⟩

/-! ### What it is to follow a reader -/

/-- The result with which a descent has come from one cursor to another, and the outcome of a reader
on the items that were left at the first. -/
inductive Matches (items : List Item) (c c' : Cursor) :
    Except Fault α → Except Failure (α × List Item) → Prop
  | ok (a : α) : c.position ≤ c'.position → c'.position ≤ max c.position items.length →
      Matches items c c' (.ok a) (.ok (a, c'.rest items))
  | error (f : Failure) : Matches items c c' (.error (f.fault items)) (.error f)

/-- A result holds from an earlier cursor on, too, and what matters is where the cursors stand. -/
lemma Matches.of_le {e e' : Cursor} {result : Except Fault α}
    {outcome : Except Failure (α × List Item)} (h : Matches items c c' result outcome)
    (hle : e.position ≤ c.position) (hmax : c.position ≤ max e.position items.length)
    (hend : e'.position = c'.position) : Matches items e e' result outcome := by
  cases h with
  | ok a hle' hmax' =>
    have hrest : c'.rest items = e'.rest items := by rw [Cursor.rest, Cursor.rest, hend]
    rw [hrest]
    exact .ok a (by omega) (by omega)
  | error f => exact .error f

/-- From this cursor the descent ends as the reader does on the items that are left. -/
def FollowsAt (items : List Item) (x : ℕ → Descent α) (r : Reader α) (c : Cursor) : Prop :=
  ∃ result c', EndsWith x c result c' ∧ c.Keeps c' ∧
    Matches items c c' result (r (c.rest items))

/-- The descent follows the reader with so many levels and loops open and less than so many items
left. -/
def Follows (items : List Item) (d l n : ℕ) (x : ℕ → Descent α) (r : Reader α) : Prop :=
  ∀ c : Cursor, c.At items d l n → FollowsAt items x r c

/-- Nothing is to be shown where less than no items are left. -/
lemma follows_zero {x : ℕ → Descent α} {r : Reader α} : Follows items d l 0 x r :=
  fun _ hc => absurd hc.length (Nat.not_lt_zero _)

/-! ### Composed descents -/

lemma FollowsAt.congr {x y : ℕ → Descent α} {r s : Reader α} (h : FollowsAt items y s c)
    (hx : ∀ m, x m c = y m c) (hr : r (c.rest items) = s (c.rest items)) :
    FollowsAt items x r c := by
  obtain ⟨result, c', ⟨k, hk⟩, hkeeps, hmatches⟩ := h
  exact ⟨result, c', ⟨k, fun m hm => (hx m).trans (hk m hm)⟩, hkeeps, hr ▸ hmatches⟩

lemma FollowsAt.call {x y : ℕ → Descent α} {r : Reader α} (h : FollowsAt items y r c)
    (hx : ∀ m, x (m + 1) c = y m c) : FollowsAt items x r c := by
  obtain ⟨result, c', hends, hkeeps, hmatches⟩ := h
  exact ⟨result, c', hends.call hx, hkeeps, hmatches⟩

/-- A call follows a reader if what is done in it does. -/
lemma Follows.call {x y : ℕ → Descent α} {r : Reader α} (hx : ∀ m, x (m + 1) = y m)
    (h : Follows items d l n y r) : Follows items d l n x r := fun c hc =>
  (h c hc).call fun m => congrFun (hx m) c

lemma followsAt_pure (a : α) : FollowsAt items (fun _ => pure a) (pure a) c :=
  ⟨.ok a, c, endsWith_of_eq rfl, .refl c, .ok a (Nat.le_refl _) (Nat.le_max_left _ _)⟩

lemma FollowsAt.bind {x : ℕ → Descent α} {r : Reader α} {f : α → ℕ → Descent β}
    {g : α → Reader β} (hx : FollowsAt items x r c)
    (hf : ∀ a c', c.Keeps c' → c.position ≤ c'.position →
      r (c.rest items) = .ok (a, c'.rest items) → FollowsAt items (f a) (g a) c') :
    FollowsAt items (fun m => x m >>= fun a => f a m) (r >>= g) c := by
  obtain ⟨result, mid, hends, hkeeps, hmatches⟩ := hx
  rcases hr : r (c.rest items) with failure | ⟨a, rest⟩
  · rw [hr] at hmatches
    cases hmatches
    have hfail : (r >>= g) (c.rest items) = .error failure := state_bind_error.mpr (.inl hr)
    refine ⟨_, mid, hends.bind_fault, hkeeps, ?_⟩
    rw [hfail]
    exact .error failure
  · rw [hr] at hmatches
    cases hmatches with
    | ok a hle hmax =>
      obtain ⟨result, c', hends', hkeeps', hmatches'⟩ := hf a mid hkeeps hle hr
      refine ⟨result, c', hends.bind hends', hkeeps.trans hkeeps', ?_⟩
      rw [bind_of_ok hr]
      exact hmatches'.of_le hle hmax rfl

lemma Follows.bind {x : ℕ → Descent α} {r : Reader α} {f : α → ℕ → Descent β}
    {g : α → Reader β} (hx : Follows items d l n x r)
    (hf : ∀ a, Follows items d l n (f a) (g a)) :
    Follows items d l n (fun m => x m >>= fun a => f a m) (r >>= g) := fun c hc =>
  (hx c hc).bind fun a c' hkeeps hle _ => hf a c' (hc.keeps hkeeps hle)

/-- A round of a loop: what its first part takes is not left for the others. -/
lemma Follows.round {x : ℕ → Descent α} {r : Reader α} {f : α → ℕ → Descent β}
    {g : α → Reader β} (hx : Follows items d l (n + 1) x r) (hr : r.Consumes 1)
    (hf : ∀ a, Follows items d l n (f a) (g a)) :
    Follows items d l (n + 1) (fun m => x m >>= fun a => f a m) (r >>= g) := fun c hc =>
  (hx c hc).bind fun a c' hkeeps hle hrun => hf a c' <| (hc.keeps hkeeps hle).less <| by
    have := ((hr _).leaves hrun).2
    have := hc.length
    omega

lemma Follows.map {x : ℕ → Descent α} {r : Reader α} {g : α → β} (hx : Follows items d l n x r) :
    Follows items d l n (fun m => g <$> x m) (g <$> r) := by
  simp only [map_eq_pure_bind]
  exact hx.bind fun a c _ => followsAt_pure (g a)

lemma FollowsAt.ite {p q : Prop} [Decidable p] [Decidable q] {x y : ℕ → Descent α}
    {r s : Reader α} (hpq : p ↔ q) (hx : FollowsAt items x r c) (hy : FollowsAt items y s c) :
    FollowsAt items (fun m => if p then x m else y m) (if q then r else s) c := by
  by_cases h : p
  · simp only [if_pos h, if_pos (hpq.mp h)]
    exact hx
  · simp only [if_neg h, if_neg (mt hpq.mpr h)]
    exact hy

lemma Follows.ite {p q : Prop} [Decidable p] [Decidable q] {x y : ℕ → Descent α}
    {r s : Reader α} (hpq : p ↔ q) (hx : Follows items d l n x r) (hy : Follows items d l n y s) :
    Follows items d l n (fun m => if p then x m else y m) (if q then r else s) := fun c hc =>
  .ite hpq (hx c hc) (hy c hc)

/-- A loop without a bound follows the reader of the loop that is bounded. -/
lemma Follows.bounded {x : ℕ → Descent α} {loop : ℕ → Reader α}
    (h : ∀ n, Follows items d l n x (loop n)) : Follows items d l n x (bounded loop) :=
  fun c hc => h _ c ⟨hc.depth, hc.loops, Nat.lt_succ_self _⟩

/-! ### Steps -/

lemma follows_pure (a : α) : Follows items d l n (fun _ => pure a) (pure a) := fun _ _ =>
  followsAt_pure a

lemma followsAt_fail (cause : Cause) : FollowsAt items (fun _ => (fail items cause : Descent α))
    (Reader.fail cause) c := by
  refine ⟨_, c, endsWith_of_eq rfl, .refl c, ?_⟩
  have hline : ((items[c.position]?.or items.getLast?).map Item.line).getD 1 =
      ((c.rest items).head?.map Item.line).getD ((items.getLast?.map Item.line).getD 1) := by
    rw [Cursor.head?_rest]
    cases items[c.position]? <;> rfl
  rw [hline]
  exact .error ⟨cause, (c.rest items).head?.map Item.line⟩

lemma follows_fail (cause : Cause) : Follows items d l n (fun _ => (fail items cause : Descent α))
    (Reader.fail cause) := fun _ _ => followsAt_fail cause

lemma followsAt_failFound (cause : String → Cause) :
    FollowsAt items (fun _ => (failFound items cause : Descent α)) (Reader.failFound cause) c :=
  (followsAt_fail (cause (describe (c.rest items)))).congr (fun _ => rfl) rfl

lemma follows_failFound (cause : String → Cause) :
    Follows items d l n (fun _ => (failFound items cause : Descent α)) (Reader.failFound cause) :=
  fun _ _ => followsAt_failFound cause

lemma peek?_run : Descent.peek? items c = some (.ok (next? (c.rest items)), c) := rfl

lemma FollowsAt.peek? {f : Option TokenKind → ℕ → Descent α} {g : Option TokenKind → Reader α}
    (h : ∀ kind?, next? (c.rest items) = kind? → FollowsAt items (f kind?) (g kind?) c) :
    FollowsAt items (fun m => Descent.peek? items >>= fun kind? => f kind? m)
      (Reader.peek? >>= g) c :=
  (h _ rfl).congr (fun _ => bind_of_run peek?_run) peek?_bind

lemma FollowsAt.get {f : List Item → ℕ → Descent α} {g : List Item → Reader α}
    (h : ∀ is, c.rest items = is → FollowsAt items (f is) (g is) c) :
    FollowsAt items (fun m => rest items >>= fun is => f is m) (get >>= g) c :=
  (h _ rfl).congr (fun _ => bind_of_run rfl) rfl

lemma Follows.atEnd {x y : ℕ → Descent α} {r s : Reader α} (hx : Follows items d l n x r)
    (hy : Follows items d l n y s) :
    Follows items d l n (fun m => atEnd items >>= fun b => if b = true then x m else y m)
      (get >>= fun is => if is.isEmpty = true then r else s) := by
  intro c hc
  have hend : decide (items.length ≤ c.position) = true ↔ (c.rest items).isEmpty = true := by
    rw [Cursor.rest_isEmpty]
  exact (FollowsAt.ite hend (hx c hc) (hy c hc)).congr (fun _ => bind_of_run rfl) rfl

lemma followsAt_advance (hrest : c.rest items ≠ []) :
    FollowsAt items (fun _ => Descent.advance) Reader.advance c := by
  have hlt := Cursor.lt_length hrest
  have hrun : Reader.advance (c.rest items) = .ok ((), c.forward.rest items) := by
    rw [Cursor.rest_forward]
    rfl
  refine ⟨_, c.forward, endsWith_of_eq rfl, Cursor.keeps_forward, ?_⟩
  rw [hrun]
  refine .ok () (Nat.le_succ _) ?_
  simp only [Cursor.forward]
  omega

/-- An item that is there is taken, and one item less is left. -/
lemma FollowsAt.advance {f : Unit → ℕ → Descent α} {g : Unit → Reader α}
    (hc : c.At items d l (n + 1)) (hrest : c.rest items ≠ [])
    (h : Follows items d l n (f ()) (g ())) :
    FollowsAt items (fun m => Descent.advance >>= fun u => f u m) (Reader.advance >>= g) c :=
  (followsAt_advance hrest).bind fun _ c' hkeeps hle hrun =>
    h c' <| (hc.keeps hkeeps hle).less <| by
      have htail : (c.rest items).tail = c'.rest items := advance_ok.mp hrun
      have hpos : 0 < (c.rest items).length := List.length_pos_iff.mpr hrest
      have := hc.length
      rw [← htail, List.length_tail]
      omega

/-- A token that was seen is taken. -/
lemma FollowsAt.seen {f : Unit → ℕ → Descent α} {g : Unit → Reader α} {kind : TokenKind}
    (hc : c.At items d l (n + 1)) (hnext : next? (c.rest items) = some kind)
    (h : Follows items d l n (f ()) (g ())) :
    FollowsAt items (fun m => Descent.advance >>= fun u => f u m) (Reader.advance >>= g) c :=
  .advance hc (fun hrest => by rw [hrest] at hnext; cases hnext) h

/-- A token that was chosen by its kind is taken. -/
lemma FollowsAt.chosen {γ : Type} {f : Unit → ℕ → Descent α} {g : Unit → Reader α}
    {choose : TokenKind → Option γ} {choice : γ} (hc : c.At items d l (n + 1))
    (hnext : (next? (c.rest items)).bind choose = some choice)
    (h : Follows items d l n (f ()) (g ())) :
    FollowsAt items (fun m => Descent.advance >>= fun u => f u m) (Reader.advance >>= g) c := by
  obtain ⟨kind, hkind, -⟩ := Option.bind_eq_some_iff.mp hnext
  exact .seen hc hkind h

lemma follows_peekIs (p : Punct) : Follows items d l n (fun _ => Descent.peekIs items p)
    (Reader.peekIs p) := fun _ _ => .peek? fun _ _ => followsAt_pure _

lemma follows_eat (p : Punct) : Follows items d l n (fun _ => Descent.eat items p)
    (Reader.eat p) := by
  intro c hc
  refine (follows_peekIs p c hc).bind fun b c' _ _ hrun => ?_
  rw [peekIs_eq] at hrun
  obtain ⟨hseen, hrest⟩ := Prod.mk.inj (Except.ok.inj hrun)
  cases b with
  | false => exact followsAt_pure false
  | true =>
    have hne : c'.rest items ≠ [] := by
      intro hnil
      rw [hrest, hnil] at hseen
      cases hseen
    exact (followsAt_advance hne).bind fun _ _ _ _ _ => followsAt_pure true

lemma follows_expect (p : Punct) : Follows items d l n (fun _ => Descent.expect items p)
    (Reader.expect p) :=
  (follows_eat p).bind fun _ => .ite Iff.rfl (follows_pure ()) (follows_failFound _)

/-! ### Levels and loops -/

/-- A call with one more level open, where there may be one more. -/
lemma Follows.nested {x : ℕ → Descent α} {r : Reader α} (hd : d < maxNesting)
    (h : Follows items (d + 1) l n x r) :
    Follows items d l n (fun m => Descent.nested items (x m)) r := by
  intro c hc
  have hlt : c.depth < maxNesting := hc.depth ▸ hd
  obtain ⟨result, c', ⟨k, hk⟩, hkeeps, hmatches⟩ :=
    h c.openLevel ⟨congrArg (· + 1) hc.depth, hc.loops, hc.length⟩
  have hrun (m : ℕ) (hm : k ≤ m) :
      Descent.nested items (x m) c = some (result, c'.closeLevel) := by
    rw [Descent.nested.eq_def, if_pos hlt, hk m hm]
    rfl
  exact ⟨result, c'.closeLevel, ⟨k, hrun⟩, .level hlt hkeeps,
    hmatches.of_le (Nat.le_refl _) (Nat.le_max_left _ _) rfl⟩

/-- A call where no more levels may be open. -/
lemma follows_nested_deep {x : ℕ → Descent α} (hd : maxNesting ≤ d) :
    Follows items d l n (fun m => Descent.nested items (x m)) (Reader.fail .tooDeep) := by
  intro c hc
  have hle : ¬ c.depth < maxNesting := by
    rw [hc.depth]
    omega
  exact (followsAt_fail .tooDeep).congr (fun _ => if_neg hle) rfl

lemma Follows.looped {x : ℕ → Descent α} {r : Reader α} (h : Follows items d (l + 1) n x r) :
    Follows items d l n (fun m => Descent.looped (x m)) r := by
  intro c hc
  obtain ⟨result, c', ⟨k, hk⟩, hkeeps, hmatches⟩ :=
    h c.openLoop ⟨hc.depth, congrArg (· + 1) hc.loops, hc.length⟩
  have hrun (m : ℕ) (hm : k ≤ m) : Descent.looped (x m) c = some (result, c'.closeLoop) := by
    rw [Descent.looped.eq_def, hk m hm]
    rfl
  exact ⟨result, c'.closeLoop, ⟨k, hrun⟩, .loop hkeeps,
    hmatches.of_le (Nat.le_refl _) (Nat.le_max_left _ _) rfl⟩

end Descent

end Stencil.Script
