import Stencil.Proofs.Decimal.Value
import Stencil.Proofs.Value.Likeness
import Stencil.Value.Property

/-!
Equality of values as an equivalence.

Two numbers are equal when their doubles are, and two other values when they are alike with the same
numbers. Both relations are equivalences as long as there is no NaN, and a number that is the same
is equal too. So equality is one equivalence on all values. It does not see the order of keys, and
what is read from equal values is equal again.
-/

namespace Stencil

/-! ### Numbers -/

/-- The number is not the NaN among the doubles. -/
def Number.Proper (n : Number) : Prop := n.toFloat.isNaN = false

namespace Value

variable {x y z : Number} {a b c : Value}

lemma proper_int (i : ℤ) : Number.Proper (.int i) := Decimal.isNaN_ofInt i

lemma SameNumber.cases (h : SameNumber x y) : (∃ i, x = .int i ∧ y = .int i) ∨
    ∃ f g, x = .float f ∧ y = .float g ∧ (f == g) = true := by
  match x, y, h with
  | .int i, .int j, h => exact .inl ⟨i, rfl, by rw [beq_iff_eq.mp h]⟩
  | .float f, .float g, h => exact .inr ⟨f, g, rfl, rfl, h⟩

lemma SameNumber.refl (h : x.Proper) : SameNumber x x := by
  cases x with
  | int i => exact beq_self_eq_true i
  | float f => exact Decimal.beq_self_iff.mpr h

lemma SameNumber.symm (h : SameNumber x y) : SameNumber y x := by
  rcases h.cases with ⟨i, rfl, rfl⟩ | ⟨f, g, rfl, rfl, hfg⟩
  · exact beq_self_eq_true i
  · exact BEq.symm hfg

lemma SameNumber.trans (h : SameNumber x y) (h' : SameNumber y z) : SameNumber x z := by
  rcases h.cases with ⟨i, rfl, rfl⟩ | ⟨f, g, rfl, rfl, hfg⟩
  · exact h'
  · rcases h'.cases with ⟨i, hg, -⟩ | ⟨g', k, hg, rfl, hgk⟩
    · cases hg
    · cases hg
      exact BEq.trans hfg hgk

/-- A number that is the same is equal as a double. -/
lemma SameNumber.toFloat_beq (hx : x.Proper) (h : SameNumber x y) :
    (x.toFloat == y.toFloat) = true := by
  rcases h.cases with ⟨i, rfl, rfl⟩ | ⟨f, g, rfl, rfl, hfg⟩
  · exact Decimal.beq_self_iff.mpr hx
  · exact hfg

/-! ### Equality -/

/-- The value has no NaN, and no object in it has a key twice. -/
abbrev Regular : Value → Prop := Holds Number.Proper

/-- Two numbers with equal doubles, or two values that are alike with the same numbers. -/
inductive Equal : Value → Value → Prop
  | num {x y : Number} : (x.toFloat == y.toFloat) = true → Equal (.num x) (.num y)
  | like {a b : Value} : Like SameNumber a b → Equal a b

lemma toFloat_beq_of_like (hx : x.Proper) (h : Like SameNumber (.num x) (.num y)) :
    (x.toFloat == y.toFloat) = true := by
  cases h with
  | num h => exact h.toFloat_beq hx

/-- Only two numbers are compared in another way than structurally. -/
lemma strictEquals_eq_same (h : ¬ ∃ x y, a = .num x ∧ b = .num y) :
    strictEquals a b = same a b := by
  unfold strictEquals
  split
  · exact absurd ⟨_, _, rfl, rfl⟩ h
  · rfl

lemma strictEquals_iff (ha : Regular a) (hb : Regular b) : strictEquals a b = true ↔ Equal a b := by
  by_cases hnum : ∃ x y, a = .num x ∧ b = .num y
  · obtain ⟨x, y, rfl, rfl⟩ := hnum
    refine ⟨.num, fun h => ?_⟩
    cases h with
    | num h => exact h
    | like h => exact toFloat_beq_of_like ha.of_num h
  · rw [strictEquals_eq_same hnum, same_iff_like ha hb]
    refine ⟨.like, fun h => ?_⟩
    cases h with
    | num => exact absurd ⟨_, _, rfl, rfl⟩ hnum
    | like h => exact h

lemma Equal.refl (h : Regular a) : Equal a a := .like (.refl h fun _ => SameNumber.refl)

lemma Equal.symm (h : Equal a b) : Equal b a := by
  cases h with
  | num h => exact .num (BEq.symm h)
  | like h => exact .like (h.symm fun _ _ => SameNumber.symm)

lemma Equal.trans (ha : Regular a) (hb : Regular b) (h : Equal a b) (h' : Equal b c) :
    Equal a c := by
  cases h with
  | num hxy =>
    cases h' with
    | num hyz => exact .num (BEq.trans hxy hyz)
    | like h' =>
      cases h' with
      | num hyz => exact .num (BEq.trans hxy (hyz.toFloat_beq hb.of_num))
  | like h =>
    cases h' with
    | num hyz =>
      cases h with
      | num hxy => exact .num (BEq.trans (hxy.toFloat_beq ha.of_num) hyz)
    | like h' => exact .like (h.trans h' fun _ _ _ => SameNumber.trans)

/-! ### The order of keys -/

/-- The same value with the entries of its objects in other orders, at any depth. -/
inductive Reordered : Value → Value → Prop
  | same (v : Value) : Reordered v v
  | arr {as bs : List Value} : as.length = bs.length →
    (∀ (i : ℕ) (a b : Value), as[i]? = some a → bs[i]? = some b → Reordered a b) →
    Reordered (.arr as) (.arr bs)
  | obj {as cs bs : Entries Value} : as.Perm cs → cs.names = bs.names →
    (∀ (i : ℕ) (d e : String × Value), cs[i]? = some d → bs[i]? = some e → Reordered d.2 e.2) →
    Reordered (.obj as) (.obj bs)

lemma Reordered.like {P : Number → Prop} (h : Reordered a b) (ha : Holds P a) :
    Holds P b ∧ Like Eq a b := by
  induction h with
  | same v => exact ⟨ha, .refl ha fun _ _ => rfl⟩
  | @arr as bs hlen _ ih =>
    cases ha with
    | arr hitems =>
      refine ⟨.arr fun b hb => ?_, .arr hlen fun i a b hi hi' =>
        (ih i a b hi hi' (hitems a (List.mem_of_getElem? hi))).2⟩
      obtain ⟨i, hi'⟩ := List.mem_iff_getElem?.mp hb
      obtain ⟨hlt, -⟩ := List.getElem?_eq_some_iff.mp hi'
      have hi : as[i]? = some as[i] := List.getElem?_eq_getElem (hlen ▸ hlt)
      exact (ih i _ b hi hi' (hitems _ (List.mem_of_getElem? hi))).1
  | @obj as cs bs hperm hnames _ ih =>
    cases ha with
    | obj hkeys hentries =>
      have hnames' : as.names.Perm bs.names := hnames ▸ hperm.map _
      -- an entry of the one object stands where one of the same key stands in the other
      have hback {name : String} {b : Value} (hmem : (name, b) ∈ bs) :
          ∃ a, (name, a) ∈ as ∧ Holds P b ∧ Like Eq a b := by
        obtain ⟨i, hi⟩ := List.mem_iff_getElem?.mp hmem
        have hname : (cs[i]?).map Prod.fst = some name := by
          rw [← List.getElem?_map, ← Entries.names, hnames, Entries.names, List.getElem?_map, hi]
          rfl
        obtain ⟨⟨_, a⟩, hd, rfl⟩ := Option.map_eq_some_iff.mp hname
        have hmem' := hperm.mem_iff.mpr (List.mem_of_getElem? hd)
        exact ⟨a, hmem', ih i _ _ hd hi (hentries _ a hmem')⟩
      refine ⟨.obj (hnames'.nodup_iff.mp hkeys) fun name b hmem => ?_,
        .obj (fun name => hnames'.mem_iff) fun name a b hfind hfind' => ?_⟩
      · obtain ⟨_, -, hb, -⟩ := hback hmem
        exact hb
      · obtain ⟨a', hmem, -, hlike⟩ := hback (Entries.mem_of_find? hfind')
        obtain rfl := Option.some.inj (hfind.symm.trans (Entries.find?_of_mem hkeys hmem))
        exact hlike

/-- A value is equal to itself in another order. -/
lemma Reordered.equal (h : Reordered a b) (ha : Regular a) : Regular b ∧ Equal a b := by
  obtain ⟨hb, hlike⟩ := h.like ha
  have hself : Like SameNumber a a := .refl ha fun _ => SameNumber.refl
  exact ⟨hb, .like (hself.trans hlike fun _ _ _ hxy hyz => hyz ▸ hxy)⟩

lemma strictEquals_reordered {a' b' : Value} (ha : Regular a) (hb : Regular b)
    (haa : Reordered a a') (hbb : Reordered b b') : strictEquals a' b' = strictEquals a b := by
  obtain ⟨ha', haa⟩ := haa.equal ha
  obtain ⟨hb', hbb⟩ := hbb.equal hb
  rw [Bool.eq_iff_iff, strictEquals_iff ha' hb', strictEquals_iff ha hb]
  constructor
  · intro h
    exact (haa.trans ha ha' h).trans ha hb' hbb.symm
  · intro h
    exact (haa.symm.trans ha' ha h).trans ha' hb hbb

/-! ### Reading -/

lemma isTruthy_of_toFloat (h : (x.toFloat == y.toFloat) = true) :
    isTruthy (.num x) = isTruthy (.num y) := by
  have hzero : (x.toFloat == 0) = (y.toFloat == 0) := by
    rw [Bool.eq_iff_iff]
    exact ⟨BEq.trans (BEq.symm h), BEq.trans h⟩
  have hx := Decimal.isNaN_eq_false_of_beq h
  have hy := Decimal.isNaN_eq_false_of_beq (BEq.symm h)
  rw [isTruthy, isTruthy, bne, bne, hzero, hx, hy]

lemma Equal.isTruthy_eq (ha : Regular a) (h : Equal a b) : a.isTruthy = b.isTruthy := by
  cases h with
  | num h => exact isTruthy_of_toFloat h
  | like h =>
    cases h with
    | num h => exact isTruthy_of_toFloat (h.toFloat_beq ha.of_num)
    | null | bool | str | arr | obj => rfl

/-- Both reads fail for the same reason, or they yield equal values. -/
def ReadAlike (r s : Except PropertyError Value) : Prop :=
  (∃ e, r = .error e ∧ s = .error e) ∨ ∃ v w, r = .ok v ∧ s = .ok w ∧ strictEquals v w = true

lemma readAlike_of_like (ha : Regular a) (hb : Regular b) (h : Like SameNumber a b) :
    ReadAlike (.ok a) (.ok b) :=
  .inr ⟨a, b, rfl, rfl, (strictEquals_iff ha hb).mpr (.like h)⟩

lemma readAlike_self (h : Regular a) : ReadAlike (.ok a) (.ok a) :=
  readAlike_of_like h h (.refl h fun _ => SameNumber.refl)

/-- What a text yields is a value without numbers but for its length. -/
lemma regular_of_str {s property : String} {v : Value}
    (h : getProperty (.str s) property = .ok v) : Regular v := by
  rw [getProperty] at h
  split_ifs at h
  · cases h
    exact .num (proper_int _)
  · cases h
    rcases element? s.toList property with _ | c
    · exact .null
    · exact .str _

lemma readAlike_items {as bs : List Value} (ha : Regular (.arr as)) (hb : Regular (.arr bs))
    (h : Like SameNumber (.arr as) (.arr bs)) (property : String) :
    ReadAlike (getProperty (.arr as) property) (getProperty (.arr bs) property) := by
  obtain ⟨hlen, hitems⟩ := like_arr_iff.mp h
  rw [getProperty, getProperty]
  split_ifs with hlength
  · rw [hlen]
    exact readAlike_self (.num (proper_int _))
  · rcases hposition : position? property with _ | i
    · rw [element?, element?, hposition]
      exact readAlike_self .null
    · rw [element?, element?, hposition]
      show ReadAlike (.ok (as[i]?.getD .null)) (.ok (bs[i]?.getD .null))
      rcases Nat.lt_or_ge i as.length with hi | hi
      · have hi' : i < bs.length := hlen ▸ hi
        rw [List.getElem?_eq_getElem hi, List.getElem?_eq_getElem hi']
        exact readAlike_of_like (ha.of_mem (List.getElem_mem hi)) (hb.of_mem (List.getElem_mem hi'))
          (hitems i _ _ (List.getElem?_eq_getElem hi) (List.getElem?_eq_getElem hi'))
      · rw [List.getElem?_eq_none hi, List.getElem?_eq_none (hlen ▸ hi)]
        exact readAlike_self .null

lemma readAlike_entries {as bs : Entries Value} (ha : Regular (.obj as)) (hb : Regular (.obj bs))
    (h : Like SameNumber (.obj as) (.obj bs)) (property : String) :
    ReadAlike (getProperty (.obj as) property) (getProperty (.obj bs) property) := by
  obtain ⟨hnames, hentries⟩ := like_obj_iff.mp h
  rw [getProperty, getProperty]
  by_cases hmem : property ∈ as.names
  · obtain ⟨v, hv⟩ := Entries.mem_names_iff.mp hmem
    obtain ⟨w, hw⟩ := Entries.mem_names_iff.mp ((hnames property).mp hmem)
    rw [hv, hw]
    exact readAlike_of_like (ha.of_find? hv) (hb.of_find? hw) (hentries property v w hv hw)
  · have hmem' : property ∉ bs.names := fun h => hmem ((hnames property).mpr h)
    rw [Entries.find?_eq_none hmem, Entries.find?_eq_none hmem']
    exact readAlike_self .null

lemma Equal.readAlike (ha : Regular a) (hb : Regular b) (h : Equal a b) (property : String) :
    ReadAlike (a.getProperty property) (b.getProperty property) := by
  cases h with
  | num => exact readAlike_self .null
  | like h =>
    cases h with
    | null => exact .inl ⟨_, rfl, rfl⟩
    | bool | num => exact readAlike_self .null
    | str s =>
      rcases hread : getProperty (.str s) property with e | v
      · exact .inl ⟨e, rfl, rfl⟩
      · exact readAlike_self (regular_of_str hread)
    | arr hlen hitems => exact readAlike_items ha hb (.arr hlen hitems) property
    | obj hnames hentries => exact readAlike_entries ha hb (.obj hnames hentries) property

/-- **Equality is an equivalence that reading respects.** Without NaN and without keys that come
twice, it is reflexive, symmetric and transitive, and it does not depend on the order of keys. Equal
values count as true alike, and each property of them fails alike or has equal values. -/
theorem strictEquals_equivalence :
    (∀ a, Regular a → strictEquals a a = true) ∧
    (∀ a b, Regular a → Regular b → strictEquals a b = true → strictEquals b a = true) ∧
    (∀ a b c, Regular a → Regular b → Regular c →
      strictEquals a b = true → strictEquals b c = true → strictEquals a c = true) ∧
    (∀ a a' b b', Regular a → Regular b → Reordered a a' → Reordered b b' →
      strictEquals a' b' = strictEquals a b) ∧
    ∀ a b, Regular a → Regular b → strictEquals a b = true →
      a.isTruthy = b.isTruthy ∧
        ∀ property, ReadAlike (a.getProperty property) (b.getProperty property) := by
  refine ⟨fun a ha => ?_, fun a b ha hb h => ?_, fun a b c ha hb hc hab hbc => ?_,
    fun a a' b b' ha hb haa hbb => strictEquals_reordered ha hb haa hbb, fun a b ha hb h => ?_⟩
  · exact (strictEquals_iff ha ha).mpr (.refl ha)
  · exact (strictEquals_iff hb ha).mpr ((strictEquals_iff ha hb).mp h).symm
  · rw [strictEquals_iff ha hb] at hab
    rw [strictEquals_iff hb hc] at hbc
    exact (strictEquals_iff ha hc).mpr (hab.trans ha hb hbc)
  · have hequal := (strictEquals_iff ha hb).mp h
    exact ⟨hequal.isTruthy_eq ha, hequal.readAlike ha hb⟩

/-- An entry of a page, with its keys in two orders. -/
def entry : Value := .obj [("id", .int 7), ("share", .num (.float 0.5))]

def entryReordered : Value := .obj [("share", .num (.float 0.5)), ("id", .int 7)]

/-- A page with one entry, with its keys in two orders at both depths. -/
def page : Value := .obj [("title", .str "t"), ("rows", .arr [entry])]

def pageReordered : Value := .obj [("rows", .arr [entryReordered]), ("title", .str "t")]

lemma regular_page : Regular page := by
  have hshare : Number.Proper (.float 0.5) := by
    show (0.5 : Float).isNaN = false
    decide +kernel
  refine .obj (by decide) fun name v hmem => ?_
  simp only [List.mem_cons, List.not_mem_nil, or_false, Prod.mk.injEq] at hmem
  rcases hmem with ⟨-, rfl⟩ | ⟨-, rfl⟩
  · exact .str "t"
  · refine .arr (List.forall_mem_singleton.mpr (.obj (by decide) fun name v hmem => ?_))
    simp only [List.mem_cons, List.not_mem_nil, or_false, Prod.mk.injEq] at hmem
    rcases hmem with ⟨-, rfl⟩ | ⟨-, rfl⟩
    · exact .num (proper_int 7)
    · exact .num hshare

lemma reordered_page : Reordered page pageReordered := by
  have hentry : Reordered entry entryReordered := by
    refine .obj (List.Perm.swap _ _ _) rfl fun i d e hd he => ?_
    rcases i with _ | _ | i <;> cases hd <;> cases he <;> exact .same _
  refine .obj (List.Perm.swap _ _ _) rfl fun i d e hd he => ?_
  rcases i with _ | _ | i <;> cases hd <;> cases he
  · refine .arr rfl fun i a b ha hb => ?_
    rcases i with _ | i
    · cases ha
      cases hb
      exact hentry
    · cases ha
  · exact .same _

/-- A page in another order is equal to it in both directions, and to itself by way of the page. -/
theorem strictEquals_equivalence_page :
    Regular page ∧ Regular pageReordered ∧ Reordered page pageReordered ∧
    strictEquals page page = true ∧ strictEquals page pageReordered = true ∧
    strictEquals pageReordered page = true ∧ strictEquals pageReordered pageReordered = true ∧
    page.isTruthy = pageReordered.isTruthy ∧
    ReadAlike (page.getProperty "rows") (pageReordered.getProperty "rows") := by
  obtain ⟨hrefl, hsymm, htrans, hreordered, hreads⟩ := strictEquals_equivalence
  have hpage := regular_page
  have hpage' := (reordered_page.like hpage).1
  have hself := hrefl page hpage
  have hother : strictEquals page pageReordered = true :=
    (hreordered page page page pageReordered hpage hpage (.same page) reordered_page).trans hself
  have hback := hsymm page pageReordered hpage hpage' hother
  obtain ⟨htruth, hread⟩ := hreads page pageReordered hpage hpage' hother
  exact ⟨hpage, hpage', reordered_page, hself, hother, hback,
    htrans pageReordered page pageReordered hpage' hpage hpage' hback hother, htruth, hread "rows"⟩

end Value

end Stencil
