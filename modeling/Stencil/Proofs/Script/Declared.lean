import Mathlib.Data.List.Infix
import Stencil.Proofs.Script.Counting
import Stencil.Proofs.Script.Items
import Stencil.Proofs.Script.Progress
import Stencil.Proofs.Script.TokenLines

/-!
Declared names and what they are read as.

A declaration takes any word that is not reserved as a name. An operand reads four more words as
constants. So a name that was declared reads back as the variable of this name, with the value of
its declaration, unless it is one of these four.
-/

namespace Stencil.Script

open Reader Grammar Token

variable {n : ℕ} {name : String} {init : Option Expr} {e : Expr} {tokens : List Token}
  {items rest : List Item} {instructions : List Instruction} {inner : Level}
  {bs : List (String × Option Expr)}

/-! ### Words of a text -/

lemma mem_tokensFrom {t : Token} {line : ℕ} {ps : List PlacedToken} (h : t ∈ tokensFrom line ps) :
    ∃ p ∈ ps, p.kind = t.kind := by
  induction ps generalizing line with
  | nil => cases h
  | cons p ps ih =>
    rcases List.mem_cons.mp h with rfl | h
    · exact ⟨p, List.mem_cons_self, rfl⟩
    · obtain ⟨q, hq, hkind⟩ := ih h
      exact ⟨q, List.mem_cons_of_mem p hq, hkind⟩

/-- A word among the tokens of a text is spelled as one. -/
lemma spelled_of_tokenize {source : String} {line line' : ℕ} (h : tokenize source line = .ok tokens)
    (hmem : ⟨.ident name, line'⟩ ∈ tokens) : Spelled name.toList := by
  obtain ⟨p, rfl⟩ := placeable_of_readWithin (Nat.le_refl _) h
  obtain ⟨⟨gap, text, kind, hw⟩, -, hkind⟩ := mem_tokensFrom hmem
  cases hkind
  cases hw with
  | word h => rwa [String.toList_ofList]

/-- A word that is spelled as one is the only token of its text. -/
lemma tokenize_spelled (h : Spelled name.toList) (line : ℕ) :
    tokenize name line = .ok [⟨.ident name, line⟩] := by
  have hlexes := (lexes_nil line).word h (by simp)
  rw [List.append_nil, String.ofList_toList] at hlexes
  exact hlexes.tokenize

/-- All words among the items are spelled as words. -/
def AllSpelled (items : List Item) : Prop :=
  ∀ name line, .token ⟨.ident name, line⟩ ∈ items → Spelled name.toList

lemma allSpelled_of_makes {i : Instruction} {line next : ℕ} (h : i.Makes line items next) :
    AllSpelled items := by
  intro name line' hmem
  cases h with
  | literal | escaped | raw | noop => simp at hmem
  | execute _ htokens =>
    obtain ⟨t, ht, heq⟩ := List.mem_map.mp hmem
    cases heq
    exact spelled_of_tokenize htokens ht

lemma allSpelled_of_itemsFrom {line : ℕ} (h : itemsFrom line instructions = .ok items) :
    AllSpelled items := by
  induction instructions generalizing line items with
  | nil =>
    cases h
    exact fun name line hmem => by cases hmem
  | cons i instructions ih =>
    obtain ⟨first, next, more, hi, hmore, rfl⟩ := itemsFrom_cons_ok.mp h
    intro name line' hmem
    rcases List.mem_append.mp hmem with hmem | hmem
    · exact allSpelled_of_makes hi name line' hmem
    · exact ih hmore name line' hmem

/-! ### Names that declarations take -/

lemma bindingName_eq (h : bindingName items = .ok (name, rest)) :
    name ∉ reserved ∧ ∃ line, items = .token ⟨.ident name, line⟩ :: rest := by
  obtain ⟨kind, mid, hkind, h⟩ := bind_ok.mp h
  obtain ⟨hnext, rfl⟩ := peek?_ok.mp hkind
  split at h
  · obtain ⟨line, mid, rfl⟩ := next?_eq_some.mp hnext
    split_ifs at h with hreserved
    · exact (failFound_ok h).elim
    · cases h
      exact ⟨hreserved, line, rfl⟩
  · exact (failFound_ok h).elim

/-- A name that is bound stands among the items, and is no reserved word. -/
lemma bindings_names (hi : inner.Consumes) (h : bindings inner n items = .ok (bs, rest))
    (hmem : (name, init) ∈ bs) :
    name ∉ reserved ∧ ∃ line, .token ⟨.ident name, line⟩ ∈ items := by
  induction n generalizing items bs with
  | zero =>
    cases h
    cases hmem
  | succ n ih =>
    obtain ⟨first, mid, hfirst, hinit⟩ := bind_ok.mp h
    obtain ⟨hfree, line, rfl⟩ := bindingName_eq hfirst
    dsimp only at hinit
    -- the items behind the initializer are an end of those behind the name
    have hnext : ∃ init' mid', mid' <:+ mid ∧ (eat .comma >>= fun b => if b = true then
        (bindings inner n >>= fun more => pure ((first, init') :: more))
        else pure [(first, init')] : Reader (List (String × Option Expr))) mid' =
          .ok (bs, rest) := by
      rcases eat_bind_ok.mp hinit with ⟨line', mid', rfl, hvalue⟩ | ⟨-, hnone⟩
      · obtain ⟨init', mid'', hread, hmore⟩ := bind_ok.mp hvalue
        have hconsumes : (some <$> inner.assignment).Consumes 1 := hi.assignment.map
        have hsuffix := ((hconsumes mid').leaves hread).1
        exact ⟨init', mid'', hsuffix.trans (List.suffix_cons _ mid'), hmore⟩
      · exact ⟨none, mid, List.suffix_refl mid, hnone⟩
    obtain ⟨init', mid', hsuffix, hmore⟩ := hnext
    rcases eat_bind_ok.mp hmore with ⟨line', after, rfl, hthen⟩ | ⟨-, hlast⟩
    · obtain ⟨more, last, hbs, heq⟩ := bind_ok.mp hthen
      cases heq
      rcases List.mem_cons.mp hmem with heq | hmem
      · cases heq
        exact ⟨hfree, line, List.mem_cons_self⟩
      · obtain ⟨hname, line'', hin⟩ := ih hbs hmem
        exact ⟨hname, line'',
          List.mem_cons_of_mem _ (hsuffix.subset (List.mem_cons_of_mem _ hin))⟩
    · cases hlast
      cases List.mem_singleton.mp hmem
      exact ⟨hfree, line, List.mem_cons_self⟩

lemma declaration_names (hi : inner.Consumes) (h : declaration inner items = .ok (.declare bs, rest))
    (hmem : (name, init) ∈ bs) :
    name ∉ reserved ∧ ∃ line, .token ⟨.ident name, line⟩ ∈ items := by
  obtain ⟨bs', mid, hbs, h⟩ := bind_ok.mp h
  cases h
  exact bindings_names hi (bounded_ok.mp hbs) hmem

/-! ### What words are read as -/

lemma parseExpression_spelled (h : Spelled name.toList)
    (hd : ∀ n, Derives n .primary [.ident name] e) (line : ℕ) :
    parseExpression name line = .ok e := by
  have hwhole : Derives 1 .expression [.ident name] e :=
    .single (Counting.derives_assignment (hd 0))
  have hread : completeExpression.runOn (List.map .token [⟨.ident name, line⟩]) = .ok e :=
    completeExpression_of_derives (hwhole.mono (by decide))
  rw [parseExpression, tokenize_spelled h]
  exact hread

/-! ### Declarations with a value -/

lemma exec_declare_some {tiers : Tiers} {frame : Frame} {v : Value} {locals : Locals}
    (h : eval tiers e frame.locals = .ok (v, locals)) (bound : ℕ) (name : String) :
    exec tiers bound (.declare [(name, some e)]) frame =
      some (.ok (.normal, ⟨Entries.put locals name v, frame.out⟩)) := by
  have hdeclare : declareAll tiers [(name, some e)] frame.locals =
      .ok ((), Entries.put locals name v) := by
    rw [declareAll]
    refine state_bind_ok.mpr ⟨some v, locals, ?_, rfl⟩
    rw [evalOption, map_eq_pure_bind]
    exact state_bind_ok.mpr ⟨v, locals, h, rfl⟩
  rw [exec]
  exact run_bind_ok.mpr ⟨(), ⟨_, frame.out⟩, Counting.ofEval_ok hdeclare, rfl⟩

/-- A name reads back as the variable that its declaration with the value of `e` has bound. -/
structure ReadsBack (name : String) (e : Expr) : Prop where
  parsed : ∀ line, parseExpression name line = .ok (.ident name)
  evaluated : ∀ tiers bound frame v locals, eval tiers e frame.locals = .ok (v, locals) →
    ∃ after, exec tiers bound (.declare [(name, some e)]) frame =
        some (.ok (.normal, ⟨after, frame.out⟩)) ∧
      eval tiers (.ident name) after = .ok (v, after)

/-- **Declared names can be read back.** Wherever a declaration is read in a template and binds a
name to an expression, the name is read as this variable, and has the value of the expression after
the declaration, unless the name is one of the words that stand for constants. -/
theorem declared_reads_back {depth : ℕ} {mid : List Item}
    (hitems : itemsFrom 1 instructions = .ok items) (hmid : mid <:+ items)
    (hread : declaration (Level.ofDepth depth) mid = .ok (.declare bs, rest))
    (hmem : (name, some e) ∈ bs) :
    ReadsBack name e ↔ ∀ v, ¬ Constant name v := by
  obtain ⟨hfree, line, hin⟩ := declaration_names (Level.ofDepth_consumes depth) hread hmem
  have hspelled : Spelled name.toList :=
    allSpelled_of_itemsFrom hitems name line (hmid.subset hin)
  constructor
  · intro hback v hv
    have hident := hback.parsed line
    rw [parseExpression_spelled hspelled (fun _ => .constant hv)] at hident
    cases hident
  · intro hvariable
    refine ⟨parseExpression_spelled hspelled fun _ => .ident hfree hvariable, ?_⟩
    intro tiers bound frame v locals hv
    exact ⟨Entries.put locals name v, exec_declare_some hv bound name,
      Counting.eval_local (Entries.find?_put_self locals name v)⟩

/-- A name that no word of the language is the beginning of. -/
theorem declared_reads_back_total :
    let items : List Item := [.token ⟨.ident "var", 1⟩, .token ⟨.ident "total", 1⟩,
      .token ⟨.punct .assign, 1⟩, .token ⟨.str "x", 1⟩]
    itemsFrom 1 [.execute ⟨"var total = 'x'", 1⟩] = .ok items ∧ items.tail <:+ items ∧
      declaration (Level.ofDepth 1) items.tail =
        .ok (.declare [("total", some (.literal (.str "x")))], []) ∧
      (ReadsBack "total" (.literal (.str "x")) ↔ ∀ v, ¬ Constant "total" v) := by
  intro items
  have htokens : tokenize "var total = 'x'" 1 = .ok [⟨.ident "var", 1⟩, ⟨.ident "total", 1⟩,
      ⟨.punct .assign, 1⟩, ⟨.str "x", 1⟩] := by decide +kernel
  have hitems : itemsFrom 1 [.execute ⟨"var total = 'x'", 1⟩] = .ok items :=
    except_bind_ok.mpr ⟨_, htokens, rfl⟩
  have hread : declaration (Level.ofDepth 1) items.tail =
      .ok (.declare [("total", some (.literal (.str "x")))], []) := rfl
  exact ⟨hitems, items.tail_suffix, hread,
    declared_reads_back hitems items.tail_suffix hread List.mem_cons_self⟩

/-- A declaration takes a word that is then read as a constant. -/
theorem declared_true :
    parseProgram [.execute ⟨"var true = 'x'", 1⟩] =
        .ok ⟨[.declare [("true", some (.literal (.str "x")))]]⟩ ∧
      exec ⟨.null, .empty, []⟩ 0 (.declare [("true", some (.literal (.str "x")))]) ⟨[], ""⟩ =
        some (.ok (.normal, ⟨[("true", .str "x")], ""⟩)) ∧
      parseExpression "true" 1 = .ok (.literal (.bool true)) ∧
      eval ⟨.null, .empty, []⟩ (.literal (.bool true)) [("true", .str "x")] =
        .ok (.bool true, [("true", .str "x")]) ∧
      Expr.literal (.bool true) ≠ .ident "true" ∧ Value.bool true ≠ .str "x" := by
  refine ⟨?_, rfl, ?_, rfl, nofun, nofun⟩
  · have htokens : tokenize "var true = 'x'" 1 = .ok [⟨.ident "var", 1⟩, ⟨.ident "true", 1⟩,
        ⟨.punct .assign, 1⟩, ⟨.str "x", 1⟩] := by decide +kernel
    have hitems : itemsFrom 1 [.execute ⟨"var true = 'x'", 1⟩] =
        .ok [.token ⟨.ident "var", 1⟩, .token ⟨.ident "true", 1⟩, .token ⟨.punct .assign, 1⟩,
          .token ⟨.str "x", 1⟩] := except_bind_ok.mpr ⟨_, htokens, rfl⟩
    exact except_bind_ok.mpr ⟨_, hitems, rfl⟩
  · have hspelled : Spelled "true".toList := by decide +kernel
    exact parseExpression_spelled hspelled (fun _ => .constant .yes) 1

end Stencil.Script
