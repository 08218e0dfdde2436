import Stencil.Proofs.Script.Follow

/-!
The readers of expressions accept every phrase of the grammar, as long as it is not continued by
what comes next.
-/

namespace Stencil.Script

open Reader Grammar

variable {m n : ℕ} {items rest : List Item} {ts us vs : List TokenKind} {e : Expr}

/-! ### Accepting a phrase -/

/-- The reader accepts the tokens as `e` where the rest stops it. -/
def Reader.Reads (r : Reader Expr) (m : ℕ) (ts : List TokenKind) (e : Expr) : Prop :=
  ∀ ⦃items rest : List Item⦄, Spans items rest ts → Stops m rest → r items = .ok (e, rest)

lemma Reader.Reads.mono {r : Reader Expr} {m' : ℕ} (h : r.Reads m ts e) (hm : m ≤ m') :
    r.Reads m' ts e :=
  fun _ _ hspan hstop => h hspan (hstop.mono hm)

/-- The reader enters a loop after the tokens, with `e` so far and rounds enough for the rest. -/
def Reader.Enters (r : Reader Expr) (loop : ℕ → Expr → Reader Expr) (m : ℕ)
    (ts : List TokenKind) (e : Expr) : Prop :=
  ∀ ⦃items rest : List Item⦄, Spans items rest ts → Stops m rest →
    ∃ fuel, rest.length < fuel ∧ r items = loop fuel e rest

/-- A round is left for what comes after the tokens. -/
lemma Reader.Enters.round {r : Reader Expr} {loop : ℕ → Expr → Reader Expr}
    (h : r.Enters loop m ts e) (hspan : Spans items rest ts) (hstop : Stops m rest) :
    ∃ fuel, rest.length ≤ fuel ∧ r items = loop (fuel + 1) e rest := by
  obtain ⟨fuel, hfuel, heq⟩ := h hspan hstop
  obtain ⟨fuel, rfl⟩ := Nat.exists_eq_add_one_of_ne_zero (by omega : fuel ≠ 0)
  exact ⟨fuel, by omega, heq⟩

namespace Level

variable {inner : Level}

/-! ### Lists -/

lemma stops_of_next? {p q : Punct} (h : next? rest = some (.punct p) ∨ next? rest = some (.punct q))
    (hp : m ≤ p.looseness) (hq : m ≤ q.looseness) : Stops m rest := by
  rintro r hr
  rcases h with h | h
  · cases h.symm.trans hr
    exact hp
  · cases h.symm.trans hr
    exact hq

lemma stops_commas {more : List Element} {mid : List Item} (hstop : Stops 11 rest)
    (hspan : Spans mid rest (more.flatMap fun p => .punct .comma :: p.tokens)) : Stops 10 mid := by
  cases more with
  | nil =>
    obtain rfl := spans_nil.mp hspan
    exact hstop.mono (by omega)
  | cons p more =>
    obtain ⟨line, mid, rfl, -⟩ := spans_cons.mp hspan
    exact stops_mark (by decide)

lemma commas_complete {more : List Element} {fuel : ℕ}
    (hmore : ∀ p ∈ more, inner.assignment.Reads 10 p.tokens p.value) (hstop : Stops 11 rest)
    (hspan : Spans items rest (more.flatMap fun p => .punct .comma :: p.tokens))
    (hfuel : items.length < fuel) :
    commas inner fuel items = .ok (more.map (·.value), rest) := by
  induction more generalizing items fuel with
  | nil =>
    obtain ⟨fuel, rfl⟩ := Nat.exists_eq_add_one_of_ne_zero (by omega : fuel ≠ 0)
    obtain rfl := spans_nil.mp hspan
    rw [commas, eat_bind_of_ne (hstop.next?_ne (by decide))]
    rfl
  | cons p more ih =>
    obtain ⟨fuel, rfl⟩ := Nat.exists_eq_add_one_of_ne_zero (by omega : fuel ≠ 0)
    obtain ⟨hp, hmore⟩ := List.forall_mem_cons.mp hmore
    obtain ⟨mid', hcomma, hcommas⟩ := spans_append.mp hspan
    obtain ⟨line, mid, rfl, hfirst⟩ := spans_cons.mp hcomma
    have hlen := hfirst.length_eq
    rw [List.length_cons] at hfuel
    have hread := hp hfirst (stops_commas hstop hcommas)
    have hrest := ih hmore hcommas (by omega : _ < fuel)
    rw [commas, eat_bind_of_eq, bind_of_ok hread, bind_of_ok hrest]
    rfl

lemma expression_single (h : inner.assignment.Reads 10 ts e) :
    (expression inner).Reads 11 ts e := by
  intro items rest hspan hstop
  have hcommas : bounded (commas inner) rest = .ok (([] : List Element).map (·.value), rest) :=
    commas_complete (by simp) hstop (spans_nil.mpr rfl) (Nat.lt_succ_self _)
  rw [expression, bind_of_ok (h hspan (hstop.mono (by omega))), bind_of_ok hcommas]
  rfl

lemma expression_sequence {more : List Element} (h : inner.assignment.Reads 10 ts e)
    (hne : more ≠ []) (hmore : ∀ p ∈ more, inner.assignment.Reads 10 p.tokens p.value) :
    (expression inner).Reads 11 (ts ++ more.flatMap fun p => .punct .comma :: p.tokens)
      (.sequence (e :: more.map (·.value))) := by
  intro items rest hspan hstop
  obtain ⟨mid, hfirst, hspan⟩ := spans_append.mp hspan
  have hcommas : bounded (commas inner) mid = .ok (more.map (·.value), rest) :=
    commas_complete hmore hstop hspan (Nat.lt_succ_self _)
  rw [expression, bind_of_ok (h hfirst (stops_commas hstop hspan)), bind_of_ok hcommas]
  cases more with
  | nil => exact (hne rfl).elim
  | cons p more => rfl

lemma elements_complete {close : Punct} {args : List Element} {fuel : ℕ}
    (hclose : close.looseness = 11) (hb : ¬ Begins (.punct close))
    (hargs : ∀ p ∈ args, inner.assignment.Reads 10 p.tokens p.value)
    (hstarts : ∀ p ∈ args, StartsWith Begins p.tokens) (hlist : Listed (args.map (·.tokens)) us)
    (hspan : Spans items rest (us ++ [.punct close])) (hfuel : items.length < fuel) :
    elements inner close fuel items = .ok (args.map (·.value), rest) := by
  have hne : close ≠ .comma := by
    rintro rfl
    cases hclose
  rw [elements_eq_listed]
  refine listed_complete hne (fun p hp items rest hspan hnext => ?_) hlist hspan hfuel
  have hstop : Stops 10 rest := stops_of_next? hnext (by decide) (by omega)
  exact ⟨(hstarts p hp).next?_ne hb hspan, hargs p hp hspan hstop⟩

lemma begins_name {k : TokenKind} {name : String} (h : Names k name) : Begins k := by
  cases h <;> trivial

lemma entryName_of_names {k : TokenKind} {name : String} {line : ℕ} (h : Names k name) :
    entryName (.token ⟨k, line⟩ :: rest) = .ok (name, rest) := by
  cases h <;> rfl

lemma entry_of_reads {p : Entry} (hp : inner.assignment.Reads 10 p.tokens p.value)
    (hname : Names p.key p.name) (hspan : Spans items rest p.phrase) (hstop : Stops 10 rest) :
    entry inner items = .ok ((p.name, p.value), rest) := by
  obtain ⟨line, mid, rfl, hcolon⟩ := spans_cons.mp hspan
  obtain ⟨line', mid, rfl, hvalue⟩ := spans_cons.mp hcolon
  rw [entry, bind_of_ok (entryName_of_names hname), expect_bind, bind_of_ok (hp hvalue hstop)]
  rfl

lemma entries_complete {ps : List Entry} {fuel : ℕ}
    (hps : ∀ p ∈ ps, inner.assignment.Reads 10 p.tokens p.value)
    (hnames : ∀ p ∈ ps, Names p.key p.name) (hlist : Listed (ps.map (·.phrase)) us)
    (hspan : Spans items rest (us ++ [.punct .closeBrace])) (hfuel : items.length < fuel) :
    entries inner fuel items = .ok (ps.map (fun p => (p.name, p.value)), rest) := by
  rw [entries_eq_listed]
  refine listed_complete (by decide) (fun p hp items rest hspan hnext => ?_) hlist hspan hfuel
  have hstart : StartsWith Begins p.phrase := ⟨p.key, _, rfl, begins_name (hnames p hp)⟩
  have hstop : Stops 10 rest := stops_of_next? hnext (by decide) (by decide)
  exact ⟨hstart.next?_ne (by simp [Begins]) hspan,
    entry_of_reads (hps p hp) (hnames p hp) hspan hstop⟩

/-! ### Operands -/

lemma primary_number (f : Float) :
    (primary inner).Reads 0 [.number f] (.literal (.ofFloat f)) := by
  intro items rest hspan _
  obtain ⟨line, rfl⟩ := spans_singleton.mp hspan
  rfl

lemma primary_text (s : String) : (primary inner).Reads 0 [.str s] (.literal (.str s)) := by
  intro items rest hspan _
  obtain ⟨line, rfl⟩ := spans_singleton.mp hspan
  rfl

lemma primary_constant {name : String} {v : Value} (h : Constant name v) :
    (primary inner).Reads 0 [.ident name] (.literal v) := by
  intro items rest hspan _
  obtain ⟨line, rfl⟩ := spans_singleton.mp hspan
  cases h <;> rfl

lemma primary_ident {name : String} (hr : name ∉ reserved) (hc : ∀ v, ¬ Constant name v) :
    (primary inner).Reads 0 [.ident name] (.ident name) := by
  intro items rest hspan _
  obtain ⟨line, rfl⟩ := spans_singleton.mp hspan
  have ht : name ≠ "true" := by
    rintro rfl
    exact hc _ .yes
  have hf : name ≠ "false" := by
    rintro rfl
    exact hc _ .no
  have hn : ¬ (name = "null" ∨ name = "undefined") := by
    rintro (rfl | rfl)
    · exact hc _ .null
    · exact hc _ .undefined
  have hword : word name (.token ⟨.ident name, line⟩ :: rest) = .ok (.ident name, rest) := by
    rw [word, if_neg ht, if_neg hf, if_neg hn, if_neg hr]
    rfl
  rw [primary, peek?_bind]
  exact hword

lemma primary_openParen {line : ℕ} :
    primary inner (.token ⟨.punct .openParen, line⟩ :: items) =
      (do let e ← expression inner; expect .closeParen; return e) items := rfl

lemma primary_openBracket {line : ℕ} :
    primary inner (.token ⟨.punct .openBracket, line⟩ :: items) =
      (do return Expr.array (← bounded (elements inner .closeBracket))) items := rfl

lemma primary_openBrace {line : ℕ} :
    primary inner (.token ⟨.punct .openBrace, line⟩ :: items) =
      (do return Expr.object (← bounded (entries inner))) items := rfl

lemma primary_group (h : (expression inner).Reads 11 ts e) :
    (primary inner).Reads 0 (.punct .openParen :: ts ++ [.punct .closeParen]) e := by
  intro items rest hspan _
  obtain ⟨line, mid, rfl, hopen⟩ := spans_cons.mp hspan
  obtain ⟨mid', hts, hclose⟩ := spans_append.mp hopen
  obtain ⟨line', rfl⟩ := spans_singleton.mp hclose
  rw [primary_openParen, bind_of_ok (h hts (stops_mark (by decide))), expect_bind]
  rfl

lemma primary_array {args : List Element}
    (hargs : ∀ p ∈ args, inner.assignment.Reads 10 p.tokens p.value)
    (hstarts : ∀ p ∈ args, StartsWith Begins p.tokens) (hlist : Listed (args.map (·.tokens)) us) :
    (primary inner).Reads 0 (.punct .openBracket :: us ++ [.punct .closeBracket])
      (.array (args.map (·.value))) := by
  intro items rest hspan _
  obtain ⟨line, mid, rfl, hopen⟩ := spans_cons.mp hspan
  have hes : bounded (elements inner .closeBracket) mid = .ok (args.map (·.value), rest) :=
    elements_complete rfl (by simp [Begins]) hargs hstarts hlist hopen (Nat.lt_succ_self _)
  rw [primary_openBracket, bind_of_ok hes]
  rfl

lemma primary_object {ps : List Entry}
    (hps : ∀ p ∈ ps, inner.assignment.Reads 10 p.tokens p.value)
    (hnames : ∀ p ∈ ps, Names p.key p.name) (hlist : Listed (ps.map (·.phrase)) us) :
    (primary inner).Reads 0 (.punct .openBrace :: us ++ [.punct .closeBrace])
      (.object (ps.map fun p => (p.name, p.value))) := by
  intro items rest hspan _
  obtain ⟨line, mid, rfl, hopen⟩ := spans_cons.mp hspan
  have hes : bounded (entries inner) mid = .ok (ps.map (fun p => (p.name, p.value)), rest) :=
    entries_complete hps hnames hlist hopen (Nat.lt_succ_self _)
  rw [primary_openBrace, bind_of_ok hes]
  rfl

/-- The steps begin after a primary expression. -/
lemma stepped_enters (h : (primary inner).Reads 0 ts e) :
    (stepped inner).Enters (steps inner) 0 ts e := by
  intro items rest hspan hstop
  refine ⟨rest.length + 1, Nat.lt_succ_self _, ?_⟩
  rw [stepped, bind_of_ok (h hspan hstop), bounded_eq]

lemma steps_member {fuel line line' : ℕ} {name : String} :
    steps inner (fuel + 1) e (.token ⟨.punct .dot, line⟩ :: .token ⟨.ident name, line'⟩ :: rest) =
      steps inner fuel (.member e name) rest := rfl

lemma stepped_member (name : String) (h : (stepped inner).Enters (steps inner) 0 ts e) :
    (stepped inner).Enters (steps inner) 0 (ts ++ [.punct .dot, .ident name])
      (.member e name) := by
  intro items rest hspan _
  obtain ⟨mid, hts, hstep⟩ := spans_append.mp hspan
  obtain ⟨line, mid, rfl, hname⟩ := spans_cons.mp hstep
  obtain ⟨line', rfl⟩ := spans_singleton.mp hname
  obtain ⟨fuel, hfuel, heq⟩ := h.round hts stops_zero
  rw [List.length_cons, List.length_cons] at hfuel
  exact ⟨fuel, by omega, heq.trans steps_member⟩

lemma steps_openBracket {fuel line : ℕ} :
    steps inner (fuel + 1) e (.token ⟨.punct .openBracket, line⟩ :: items) =
      (do let key ← expression inner; expect .closeBracket; steps inner fuel (.index e key))
        items := rfl

lemma steps_openParen {fuel line : ℕ} {name : String} :
    steps inner (fuel + 1) (.ident name) (.token ⟨.punct .openParen, line⟩ :: items) =
      (do let args ← bounded (elements inner .closeParen); steps inner fuel (.call name args))
        items := rfl

lemma stepped_index {key : Expr} (h : (stepped inner).Enters (steps inner) 0 ts e)
    (hkey : (expression inner).Reads 11 us key) :
    (stepped inner).Enters (steps inner) 0
      (ts ++ .punct .openBracket :: us ++ [.punct .closeBracket]) (.index e key) := by
  intro items rest hspan _
  rw [List.append_assoc, List.cons_append] at hspan
  obtain ⟨mid, hts, hstep⟩ := spans_append.mp hspan
  obtain ⟨line, mid, rfl, hinside⟩ := spans_cons.mp hstep
  obtain ⟨mid', hus, hclose⟩ := spans_append.mp hinside
  obtain ⟨line', rfl⟩ := spans_singleton.mp hclose
  obtain ⟨fuel, hfuel, heq⟩ := h.round hts stops_zero
  have hlen := hinside.length_eq
  rw [List.length_append] at hlen
  rw [List.length_cons] at hfuel
  refine ⟨fuel, by omega, ?_⟩
  rw [heq, steps_openBracket, bind_of_ok (hkey hus (stops_mark (by decide))), expect_bind]

lemma stepped_call {name : String} {args : List Element}
    (h : (stepped inner).Enters (steps inner) 0 ts (.ident name))
    (hargs : ∀ p ∈ args, inner.assignment.Reads 10 p.tokens p.value)
    (hstarts : ∀ p ∈ args, StartsWith Begins p.tokens) (hlist : Listed (args.map (·.tokens)) us) :
    (stepped inner).Enters (steps inner) 0 (ts ++ .punct .openParen :: us ++ [.punct .closeParen])
      (.call name (args.map (·.value))) := by
  intro items rest hspan _
  rw [List.append_assoc, List.cons_append] at hspan
  obtain ⟨mid, hts, hstep⟩ := spans_append.mp hspan
  obtain ⟨line, mid, rfl, hinside⟩ := spans_cons.mp hstep
  obtain ⟨fuel, hfuel, heq⟩ := h.round hts stops_zero
  have hes : bounded (elements inner .closeParen) mid = .ok (args.map (·.value), rest) :=
    elements_complete rfl (by simp [Begins]) hargs hstarts hlist hinside (Nat.lt_succ_self _)
  have hlen := hinside.length_eq
  rw [List.length_cons] at hfuel
  refine ⟨fuel, by omega, ?_⟩
  rw [heq, steps_openParen, bind_of_ok hes]

/-- The steps end where no further step comes next. -/
lemma steps_of_stops {fuel : ℕ} (hstop : Stops 1 rest) :
    steps inner fuel e rest = .ok (e, rest) := by
  cases fuel with
  | zero => rfl
  | succ fuel =>
    rw [steps.eq_def]
    dsimp only
    rw [peek?_bind]
    rcases hk : next? rest with _ | _ | _ | _ | p
    case some.punct =>
      have hp := hstop hk
      cases p <;> first | rfl | simp [Punct.looseness] at hp
    all_goals rfl

lemma stepped_reads (h : (stepped inner).Enters (steps inner) 0 ts e) :
    (stepped inner).Reads 1 ts e := by
  intro items rest hspan hstop
  obtain ⟨fuel, -, heq⟩ := h hspan stops_zero
  rw [heq, steps_of_stops hstop]

/-! ### Operators before or after an operand -/

lemma unary_unaryOp {line : ℕ} (op : UnaryOp) :
    unary inner (.token ⟨.punct op.mark, line⟩ :: items) =
      (do return Expr.unary op (← inner.operand)) items := by
  cases op <;> rfl

lemma unary_updateOp {line : ℕ} (op : UpdateOp) :
    unary inner (.token ⟨.punct op.mark, line⟩ :: items) =
      (inner.operand >>= update op true) items := by
  cases op <;> rfl

lemma unary_prefixed (op : UnaryOp) (h : inner.operand.Reads 2 ts e) :
    (unary inner).Reads 2 (.punct op.mark :: ts) (.unary op e) := by
  intro items rest hspan hstop
  obtain ⟨line, mid, rfl, hts⟩ := spans_cons.mp hspan
  rw [unary_unaryOp, bind_of_ok (h hts hstop)]
  rfl

lemma unary_updateBefore (op : UpdateOp) (h : inner.operand.Reads 2 ts e)
    (ha : e.isAssignable = true) :
    (unary inner).Reads 2 (.punct op.mark :: ts) (.update op true e) := by
  intro items rest hspan hstop
  obtain ⟨line, mid, rfl, hts⟩ := spans_cons.mp hspan
  rw [unary_updateOp, bind_of_ok (h hts hstop), update, if_pos ha]
  rfl

/-- An operand has no operator before it. -/
lemma bind_eq_none_of_opens (hs : StartsWith Opens ts) (hspan : Spans items rest ts) :
    (next? items).bind unaryOp? = none ∧ (next? items).bind updateOp? = none := by
  obtain ⟨k, hk, hopens⟩ := hs.next? hspan
  rw [hk]
  exact ⟨hopens.unaryOp?_eq, hopens.updateOp?_eq⟩

lemma unary_updateAfter (op : UpdateOp) (hs : StartsWith Opens ts)
    (h : (stepped inner).Enters (steps inner) 0 ts e) (ha : e.isAssignable = true) :
    (unary inner).Reads 2 (ts ++ [.punct op.mark]) (.update op false e) := by
  intro items rest hspan hstop
  obtain ⟨hunary, hupdate⟩ := bind_eq_none_of_opens hs.append hspan
  obtain ⟨mid, hts, hmark⟩ := spans_append.mp hspan
  obtain ⟨line, rfl⟩ := spans_singleton.mp hmark
  have hread := stepped_reads h hts (stops_mark (by cases op <;> decide))
  have hop : (next? (.token ⟨.punct op.mark, line⟩ :: rest)).bind updateOp? = some op :=
    updateOp?_eq_some.mpr rfl
  rw [unary, peek?_bind, hunary, hupdate]
  dsimp only
  rw [bind_of_ok hread, peek?_bind, hop]
  simp only [advance_bind, update, if_pos ha]
  rfl

lemma unary_bare (hs : StartsWith Opens ts) (h : (stepped inner).Enters (steps inner) 0 ts e) :
    (unary inner).Reads 2 ts e := by
  intro items rest hspan hstop
  obtain ⟨hunary, hupdate⟩ := bind_eq_none_of_opens hs hspan
  have hread := stepped_reads h hspan (hstop.mono (by omega))
  have hop : (next? rest).bind updateOp? = none := by
    refine hstop.bind_eq_none fun k op hk => ⟨op.mark, updateOp?_eq_some.mp hk, ?_⟩
    cases op <;> decide
  rw [unary, peek?_bind, hunary, hupdate]
  dsimp only
  rw [bind_of_ok hread, peek?_bind, hop]
  rfl

/-! ### Operators between operands -/

lemma tier_eq_none {k : ℕ} {tier : Tier} (ht : tiers[k]? = some tier) (hstop : Stops (8 - k) rest) :
    (next? rest).bind tier = none := by
  refine hstop.bind_eq_none fun kind join hj => ?_
  obtain ⟨p, rfl, hjoins⟩ := (tier_eq_some ht).mp hj
  have := hjoins.looseness_eq
  exact ⟨p, rfl, by omega⟩

lemma chain_enters {k : ℕ} {tier : Tier} (ht : tiers[k]? = some tier)
    (h : (operators inner (k + 1)).Reads (7 - k) ts e) :
    (operators inner k).Enters (joined tier (operators inner (k + 1))) (7 - k) ts e := by
  intro items rest hspan hstop
  refine ⟨rest.length + 1, Nat.lt_succ_self _, ?_⟩
  rw [operators_of_lt ht, chain, bind_of_ok (h hspan hstop), bounded_eq]

/-- A further operand is joined to what stands before it. -/
lemma chain_joined {k : ℕ} {tier : Tier} {p : Punct} {join : Expr → Expr → Expr} {left right : Expr}
    (ht : tiers[k]? = some tier) (hj : Joins k p join)
    (hl : (operators inner k).Enters (joined tier (operators inner (k + 1))) (7 - k) ts left)
    (hr : (operators inner (k + 1)).Reads (7 - k) us right) :
    (operators inner k).Enters (joined tier (operators inner (k + 1))) (7 - k)
      (ts ++ .punct p :: us) (join left right) := by
  intro items rest hspan hstop
  obtain ⟨mid, hts, hmark⟩ := spans_append.mp hspan
  obtain ⟨line, mid, rfl, hus⟩ := spans_cons.mp hmark
  have hp := hj.looseness_eq
  obtain ⟨fuel, hfuel, heq⟩ := hl.round hts (stops_mark (by omega))
  have htier : (next? (.token ⟨.punct p, line⟩ :: mid)).bind tier = some join :=
    (tier_eq_some ht).mpr ⟨p, rfl, hj⟩
  have hlen := hus.length_eq
  rw [List.length_cons] at hfuel
  refine ⟨fuel, by omega, ?_⟩
  rw [heq, joined, peek?_bind, htier]
  dsimp only
  rw [advance_bind, bind_of_ok (hr hus hstop)]

/-- The operands end where a looser mark comes next. -/
lemma operators_reads {k : ℕ} {tier : Tier} (ht : tiers[k]? = some tier)
    (h : (operators inner k).Enters (joined tier (operators inner (k + 1))) (7 - k) ts e) :
    (operators inner k).Reads (8 - k) ts e := by
  intro items rest hspan hstop
  obtain ⟨fuel, -, heq⟩ := h.round hspan (hstop.mono (by omega))
  rw [heq, joined, peek?_bind, tier_eq_none ht hstop]
  rfl

lemma unconditional_reads (h : (operators inner 0).Reads 8 ts e) :
    (conditional inner).Reads 9 ts e := by
  intro items rest hspan hstop
  have hread : binary inner items = .ok (e, rest) := h hspan (hstop.mono (by omega))
  rw [conditional, bind_of_ok hread, eat_bind_of_ne (hstop.next?_ne (by decide))]
  rfl

lemma conditional_reads {test yes no : Expr} (ht : (operators inner 0).Reads 8 ts test)
    (hy : inner.assignment.Reads 10 us yes) (hn : inner.assignment.Reads 10 vs no) :
    (conditional inner).Reads 10 (ts ++ .punct .question :: us ++ .punct .colon :: vs)
      (.conditional test yes no) := by
  intro items rest hspan hstop
  rw [List.append_assoc, List.cons_append] at hspan
  obtain ⟨mid, hts, hspan⟩ := spans_append.mp hspan
  obtain ⟨line, mid, rfl, harms⟩ := spans_cons.mp hspan
  obtain ⟨mid', hus, hcolon⟩ := spans_append.mp harms
  obtain ⟨line', mid', rfl, hvs⟩ := spans_cons.mp hcolon
  have hread : binary inner items = .ok (test, .token ⟨.punct .question, line⟩ :: mid) :=
    ht hts (stops_mark (by decide))
  rw [conditional, bind_of_ok hread, eat_bind_of_eq,
    bind_of_ok (hy hus (stops_mark (by decide))), expect_bind, bind_of_ok (hn hvs hstop)]
  rfl

lemma assigned_unassigned (h : (conditional inner).Reads 10 ts e) :
    (assigned inner).Reads 10 ts e := by
  intro items rest hspan hstop
  have hop : (next? rest).bind assignOp? = none := by
    refine hstop.bind_eq_none fun k op hk => ⟨op.mark, assignOp?_eq_some.mp hk, ?_⟩
    cases op <;> decide
  rw [assigned, bind_of_ok (h hspan hstop), peek?_bind, hop]
  rfl

lemma assigned_assign {target value : Expr} (op : AssignOp)
    (ht : (conditional inner).Reads 9 ts target) (ha : target.isAssignable = true)
    (hv : inner.assignment.Reads 10 us value) :
    (assigned inner).Reads 10 (ts ++ .punct op.mark :: us) (.assign op target value) := by
  intro items rest hspan hstop
  obtain ⟨mid, hts, hmark⟩ := spans_append.mp hspan
  obtain ⟨line, mid, rfl, hus⟩ := spans_cons.mp hmark
  have hop : (next? (.token ⟨.punct op.mark, line⟩ :: mid)).bind assignOp? = some op :=
    assignOp?_eq_some.mpr rfl
  have hread := ht hts (stops_mark (by cases op <;> decide))
  rw [assigned, bind_of_ok hread, peek?_bind, hop]
  simp only [ha, if_true]
  rw [advance_bind, bind_of_ok (hv hus hstop)]
  rfl

end Level

/-! ### Nesting -/

open Level

/-- The reader for a phrase of any kind accepts the tokens as `e`. -/
def Accepts (n : ℕ) : Phrase → List TokenKind → Expr → Prop
  | .expression, ts, e => (ofDepth n).expression.Reads 11 ts e
  | .assignment, ts, e => (ofDepth n).assignment.Reads 10 ts e
  -- an assignment may come after what can be assigned to
  | .conditional, ts, e => (ofDepth n).conditional.Reads (if e.isAssignable then 9 else 10) ts e
  | .operators k, ts, e => (operators (ofDepth n) k).Reads (8 - k) ts e ∧
      ∀ tier, tiers[k]? = some tier →
        (operators (ofDepth n) k).Enters (joined tier (operators (ofDepth n) (k + 1))) (7 - k) ts e
  | .unary, ts, e => (ofDepth n).unary.Reads 2 ts e
  | .operand, ts, e => (ofDepth n).operand.Reads 2 ts e
  | .stepped, ts, e => (ofDepth n).stepped.Enters (steps (ofDepth n)) 0 ts e
  | .primary, ts, e => (ofDepth n).primary.Reads 0 ts e

lemma accepts_operators {k : ℕ} (hk : k < 6)
    (h : ∀ tier, tiers[k]? = some tier →
      (operators (ofDepth n) k).Enters (joined tier (operators (ofDepth n) (k + 1))) (7 - k) ts e) :
    Accepts n (.operators k) ts e := by
  obtain ⟨tier, ht⟩ := exists_tier hk
  exact ⟨operators_reads ht (h _ ht), h⟩

/-- **Completeness**: the readers of as many levels as a phrase nests accept it. -/
theorem accepts_of_derives {p : Phrase} (h : Derives n p ts e) : Accepts n p ts e := by
  induction h with
  -- sequences
  | single _ ih => exact expression_single ih
  | sequence _ hne _ ih ihs => exact expression_sequence ih hne ihs
  -- assignments
  | unassigned _ ih => exact assigned_unassigned (Reads.mono ih (by split_ifs <;> omega))
  | @assign n ts us target value op _ ha _ iht ihv =>
    have ht : (ofDepth n).conditional.Reads 9 ts target := by simpa [Accepts, ha] using iht
    exact assigned_assign op ht ha ihv
  -- conditionals
  | unconditional _ ih => exact (unconditional_reads ih.1).mono (by split_ifs <;> omega)
  | conditional _ _ _ iht ihy ihn => exact conditional_reads iht.1 ihy ihn
  -- operators between operands
  | @tighter n k ts e hk _ ih =>
    have hr : (operators (ofDepth n) (k + 1)).Reads (7 - k) ts e := by simpa using ih.1
    exact accepts_operators hk fun tier ht => chain_enters ht hr
  | @joined n k ts us p join left right hj _ _ ihl ihr =>
    have hr : (operators (ofDepth n) (k + 1)).Reads (7 - k) us right := by simpa using ihr.1
    exact accepts_operators hj.lt fun tier ht => chain_joined ht hj (ihl.2 tier ht) hr
  | unjoined _ ih => exact ⟨ih, fun tier ht => by cases ht⟩
  -- operators before or after an operand
  | prefixed op _ ih => exact unary_prefixed op ih
  | updateBefore op _ ha ih => exact unary_updateBefore op ih ha
  | updateAfter op hd ha ih => exact unary_updateAfter op hd.startsWith ih ha
  | bare hd ih => exact unary_bare hd.startsWith ih
  | operand _ ih => exact ih
  -- members, indices and calls
  | unstepped _ ih => exact stepped_enters ih
  | member name _ ih => exact stepped_member name ih
  | index _ _ ih ihk => exact stepped_index ih ihk
  | call _ hargs hlist ih ihs =>
    exact stepped_call ih ihs (fun p hp => (hargs p hp).startsWith) hlist
  -- primary expressions
  | number f => exact primary_number f
  | text s => exact primary_text s
  | constant hc => exact primary_constant hc
  | ident hr hc => exact primary_ident hr hc
  | group _ ih => exact primary_group ih
  | array hd hlist ihs => exact primary_array ihs (fun p hp => (hd p hp).startsWith) hlist
  | object _ hnames hlist ihs => exact primary_object ihs hnames hlist

end Stencil.Script
