import Stencil.Proofs.Value.Equality

/-!
Equality of numbers and their exact values.

A number stands for a rational number: an integer for itself, and a finite double for its value. Two
numbers are compared as doubles, so they are equal if their values are rounded to the same double,
which two integers of 64 bits may be without being one number. Inside containers no number is
rounded, but an integer is never equal to a double there. These are the two ways in which equality
misses the exact values. It misses none between numbers that some doubles stand for, and none
between values that arithmetic makes, since each number has one representation there.
-/

namespace Stencil

open Decimal (Exact)

/-! ### Numbers -/

namespace Number

variable {x y n : Number} {f : Float} {i : ℤ}

/-- The exact number that it stands for. An infinity or a NaN stands for none. -/
def value? : Number → Option ℚ
  | .int i => some i
  | .float f => (Exact.ofFloat? f).map Exact.value

/-- The exact number that its double stands for. -/
def rounded? (n : Number) : Option ℚ := (Exact.ofFloat? n.toFloat).map Exact.value

/-- Template data can hold the number: it is an integer of 64 bits or a finite double. -/
structure Held (n : Number) : Prop where
  fits : n.fits = true
  valued : ∃ q, n.value? = some q

/-- Arithmetic gives the number for some double. -/
def Computed (n : Number) : Prop := ∃ f, ofFloat? f = some n

/-- Both are integers, or both are doubles. -/
inductive SameKind : Number → Number → Prop
  | int (i j : ℤ) : SameKind (.int i) (.int j)
  | float (f g : Float) : SameKind (.float f) (.float g)

/-- Both stand for one exact number. -/
def SameValue (x y : Number) : Prop := x.value? = y.value?

lemma exists_exact_of_value {q : ℚ} (h : value? (.float f) = some q) :
    ∃ e, Exact.ofFloat? f = some e ∧ e.value = q := Option.map_eq_some_iff.mp h

lemma fits_int_iff : fits (.int i) = true ↔ -2 ^ 63 ≤ i ∧ i < 2 ^ 64 := by
  have hlow : Int.pow 2 63 = 2 ^ 63 := rfl
  have hhigh : Int.pow 2 64 = 2 ^ 64 := rfl
  rw [fits, Bool.and_eq_true, decide_eq_true_iff, decide_eq_true_iff, hlow, hhigh]

lemma Held.exists_exact (h : n.Held) : ∃ e, Exact.ofFloat? n.toFloat = some e := by
  cases n with
  | int i =>
    obtain ⟨hlow, hhigh⟩ := fits_int_iff.mp h.fits
    exact Decimal.exists_ofFloat?_ofInt (by omega)
  | float f =>
    obtain ⟨q, hq⟩ := h.valued
    obtain ⟨e, he, -⟩ := exists_exact_of_value hq
    exact ⟨e, he⟩

lemma toFloat_beq_iff (hx : x.Held) (hy : y.Held) :
    (x.toFloat == y.toFloat) = true ↔ x.rounded? = y.rounded? := by
  obtain ⟨d, hd⟩ := hx.exists_exact
  obtain ⟨e, he⟩ := hy.exists_exact
  rw [Decimal.beq_iff_value hd he, rounded?, rounded?, hd, he, Option.map_some, Option.map_some,
    Option.some_inj]

/-- Rounding changes the value of a number exactly if no double has it. -/
lemma rounded?_eq_value?_iff (h : n.Held) :
    n.rounded? = n.value? ↔ ∃ f, value? (.float f) = n.value? := by
  cases n with
  | int i =>
    refine ⟨fun h => ⟨Decimal.ofInt i, h⟩, ?_⟩
    rintro ⟨f, hf⟩
    obtain ⟨e, he, hvalue⟩ := exists_exact_of_value hf
    obtain ⟨hcanonical, -⟩ := Decimal.unpacks_of_ofFloat? he
    obtain ⟨e', he', hvalue'⟩ := Decimal.ofFloat?_ofInt_of_value hcanonical hvalue
    exact Option.map_eq_some_iff.mpr ⟨e', he', hvalue'⟩
  | float f => exact iff_of_true rfl ⟨f, rfl⟩

lemma rounded?_eq_of_sameValue (hx : x.Held) (hy : y.Held) (h : SameValue x y) :
    x.rounded? = y.rounded? := by
  cases x with
  | int i =>
    cases y with
    | int j =>
      obtain rfl : i = j := Int.cast_injective (Option.some.inj h)
      rfl
    | float g => exact ((rounded?_eq_value?_iff hx).mpr ⟨g, h.symm⟩).trans h
  | float f => exact h.trans ((rounded?_eq_value?_iff hy).mpr ⟨f, h⟩).symm

lemma rounded?_int_of_lt (h : i.natAbs < 2 ^ 53) : rounded? (.int i) = some i :=
  Option.map_eq_some_iff.mpr (Decimal.ofFloat?_ofInt_of_lt h)

/-! ### Kinds -/

lemma Computed.cases (h : n.Computed) : (∃ i : ℤ, n = .int i ∧ i.natAbs < 2 ^ 53) ∨
    ∃ f e, n = .float f ∧ Exact.ofFloat? f = some e ∧ ∀ i : ℤ, e.value = i → 2 ^ 53 ≤ i.natAbs := by
  obtain ⟨f, h⟩ := h
  have hpow : Nat.pow 2 53 = 2 ^ 53 := rfl
  rw [ofFloat?, hpow] at h
  rcases hint : Decimal.toInt? f with _ | i
  · rw [hint] at h
    dsimp only at h
    split_ifs at h with hfinite
    obtain ⟨e, he⟩ := Decimal.exists_ofFloat?_of_isFinite hfinite
    cases h
    refine .inr ⟨f, e, rfl, he, fun i hi => ?_⟩
    rw [Decimal.toInt?_of_value he hi] at hint
    cases hint
  · rw [hint] at h
    dsimp only at h
    split_ifs at h with hlt
    · cases h
      exact .inl ⟨i, rfl, hlt⟩
    · cases h
      obtain ⟨e, he⟩ : ∃ e, Exact.ofFloat? f = some e := by
        rcases he : Exact.ofFloat? f with _ | e
        · rw [Decimal.toInt?, he] at hint
          cases hint
        · exact ⟨e, rfl⟩
      refine .inr ⟨f, e, rfl, he, fun j hj => ?_⟩
      rw [Decimal.toInt?_of_value he hj] at hint
      cases hint
      exact Nat.not_lt.mp hlt

/-- Arithmetic makes one number for each value, and one that rounding does not change. -/
lemma Computed.rounded?_eq (h : n.Computed) : n.rounded? = n.value? := by
  rcases h.cases with ⟨i, rfl, hlt⟩ | ⟨f, e, rfl, he, -⟩
  · exact rounded?_int_of_lt hlt
  · rfl

lemma Computed.sameKind (hx : x.Computed) (hy : y.Computed) (h : SameValue x y) :
    SameKind x y := by
  have hapart {i : ℤ} {e : Exact} {f : Float} (hlt : i.natAbs < 2 ^ 53)
      (he : Exact.ofFloat? f = some e) (hlarge : ∀ i : ℤ, e.value = i → 2 ^ 53 ≤ i.natAbs) :
      ¬ SameValue (.int i) (.float f) := fun hsame => by
    have hvalue : some (i : ℚ) = (Exact.ofFloat? f).map Exact.value := hsame
    rw [he] at hvalue
    exact absurd hlt (Nat.not_lt.mpr (hlarge i (Option.some.inj hvalue).symm))
  rcases hx.cases with ⟨i, rfl, hi⟩ | ⟨f, d, rfl, hd, hlarge⟩
  · rcases hy.cases with ⟨j, rfl, -⟩ | ⟨g, e, rfl, he, hlarge⟩
    · exact .int i j
    · exact absurd h (hapart hi he hlarge)
  · rcases hy.cases with ⟨j, rfl, hj⟩ | ⟨g, e, rfl, -, -⟩
    · exact absurd h.symm (hapart hj hd hlarge)
    · exact .float f g

end Number

namespace Value

open Number

variable {x y : Number} {a b : Value}

/-- Structural equality of numbers is equality of values in one representation. -/
lemma sameNumber_iff (hx : x.Held) (hy : y.Held) :
    SameNumber x y ↔ SameValue x y ∧ SameKind x y := by
  cases x with
  | int i =>
    cases y with
    | int j =>
      have hsame : SameNumber (.int i) (.int j) ↔ i = j := beq_iff_eq
      have hvalue : SameValue (.int i) (.int j) ↔ i = j := Option.some_inj.trans Int.cast_inj
      rw [hsame, hvalue]
      exact (and_iff_left (.int i j)).symm
    | float g => exact iff_of_false nofun nofun
  | float f =>
    cases y with
    | int j => exact iff_of_false nofun nofun
    | float g => exact (toFloat_beq_iff hx hy).trans (and_iff_left (.float f g)).symm

lemma same_iff_value (ha : Holds Held a) (hb : Holds Held b) :
    same a b = true ↔ Like (fun x y => SameValue x y ∧ SameKind x y) a b := by
  rw [same_iff_like ha hb]
  exact ⟨fun h => h.mono ha hb fun _ _ hx hy => (sameNumber_iff hx hy).mp,
    fun h => h.mono ha hb fun _ _ hx hy => (sameNumber_iff hx hy).mpr⟩

lemma Like.and {R S : Number → Number → Prop} (h : Like R a b) (h' : Like S a b) :
    Like (fun x y => R x y ∧ S x y) a b := by
  induction h with
  | null => exact .null
  | bool b => exact .bool b
  | num hR =>
    cases h' with
    | num hS => exact .num ⟨hR, hS⟩
  | str s => exact .str s
  | arr hlen _ ih =>
    cases h' with
    | arr _ hitems => exact .arr hlen fun i a b hi hi' => ih i a b hi hi' (hitems i a b hi hi')
  | obj hkeys _ ih =>
    cases h' with
    | obj _ hentries =>
      exact .obj hkeys fun name a b hfind hfind' =>
        ih name a b hfind hfind' (hentries name a b hfind hfind')

/-! ### Where equality is by value -/

/-- Neither rounding nor representation hides from equality whether the values have the same
numbers. -/
structure Plain (a b : Value) : Prop where
  discerned : ∀ x y, a = .num x → b = .num y → x.rounded? = y.rounded? → SameValue x y
  uniform : (¬ ∃ x y, a = .num x ∧ b = .num y) → Like SameValue a b → Like SameKind a b

lemma plain_num_iff : Plain (.num x) (.num y) ↔ (x.rounded? = y.rounded? → SameValue x y) := by
  constructor
  · intro h
    exact h.discerned x y rfl rfl
  · intro h
    refine ⟨fun x' y' hx hy => ?_, fun hnum => absurd ⟨x, y, rfl, rfl⟩ hnum⟩
    cases hx
    cases hy
    exact h

lemma plain_iff (hnum : ¬ ∃ x y, a = .num x ∧ b = .num y) :
    Plain a b ↔ (Like SameValue a b → Like SameKind a b) :=
  ⟨fun h => h.uniform hnum, fun h => ⟨fun x y hx hy => absurd ⟨x, y, hx, hy⟩ hnum, fun _ => h⟩⟩

lemma strictEquals_iff_plain (ha : Holds Held a) (hb : Holds Held b) :
    (strictEquals a b = true ↔ Like SameValue a b) ↔ Plain a b := by
  by_cases hnum : ∃ x y, a = .num x ∧ b = .num y
  · obtain ⟨x, y, rfl, rfl⟩ := hnum
    have hequal : strictEquals (.num x) (.num y) = true ↔ x.rounded? = y.rounded? :=
      toFloat_beq_iff ha.of_num hb.of_num
    rw [hequal, like_num_iff, plain_num_iff]
    exact ⟨Iff.mp, fun h => ⟨h, rounded?_eq_of_sameValue ha.of_num hb.of_num⟩⟩
  · rw [strictEquals_eq_same hnum, same_iff_value ha hb, plain_iff hnum]
    constructor
    · intro h hvalue
      exact (h.mpr hvalue).mono ha hb fun _ _ _ _ => And.right
    · intro h
      exact ⟨fun hboth => hboth.mono ha hb fun _ _ _ _ => And.left,
        fun hvalue => hvalue.and (h hvalue)⟩

/-- Where equality is not by value, two numbers are equal and two other values are not. -/
lemma strictEquals_of_not_plain (ha : Holds Held a) (hb : Holds Held b) (h : ¬ Plain a b) :
    strictEquals a b = true ↔ ∃ x y, a = .num x ∧ b = .num y := by
  by_cases hnum : ∃ x y, a = .num x ∧ b = .num y
  · refine iff_of_true ?_ hnum
    obtain ⟨x, y, rfl, rfl⟩ := hnum
    rw [plain_num_iff, Classical.not_imp] at h
    exact (toFloat_beq_iff ha.of_num hb.of_num).mpr h.1
  · refine iff_of_false (fun hequal => h ?_) hnum
    rw [strictEquals_eq_same hnum, same_iff_value ha hb] at hequal
    exact (plain_iff hnum).mpr fun _ => hequal.mono ha hb fun _ _ _ _ => And.right

lemma plain_of_computed (ha : Holds Computed a) (hb : Holds Computed b) : Plain a b := by
  by_cases hnum : ∃ x y, a = .num x ∧ b = .num y
  · obtain ⟨x, y, rfl, rfl⟩ := hnum
    rw [plain_num_iff, ha.of_num.rounded?_eq, hb.of_num.rounded?_eq]
    exact id
  · exact (plain_iff hnum).mpr fun h => h.mono ha hb fun _ _ hx hy => hx.sameKind hy

lemma plain_of_doubles (hx : x.Held) (hy : y.Held) (hfx : ∃ f, value? (.float f) = x.value?)
    (hfy : ∃ f, value? (.float f) = y.value?) : Plain (.num x) (.num y) := by
  rw [plain_num_iff, (rounded?_eq_value?_iff hx).mpr hfx, (rounded?_eq_value?_iff hy).mpr hfy]
  exact id

/-- **Equality by value.** Two values are equal exactly if they have the same shape, texts and truth
values and the same exact numbers, as long as neither rounding nor representation hides the numbers.
If one does, two numbers are equal all the same, and two other values are not. Nothing is hidden
between values that arithmetic makes, nor between two numbers that doubles stand for. -/
theorem strictEquals_by_value (ha : Holds Held a) (hb : Holds Held b) :
    ((strictEquals a b = true ↔ Like SameValue a b) ↔ Plain a b) ∧
    (¬ Plain a b → (strictEquals a b = true ↔ ∃ x y, a = .num x ∧ b = .num y)) ∧
    (Holds Computed a → Holds Computed b → Plain a b) ∧
    ∀ x y, a = .num x → b = .num y → (∃ f, value? (.float f) = x.value?) →
      (∃ f, value? (.float f) = y.value?) → Plain a b := by
  refine ⟨strictEquals_iff_plain ha hb, strictEquals_of_not_plain ha hb, plain_of_computed, ?_⟩
  rintro x y rfl rfl hfx hfy
  exact plain_of_doubles ha.of_num hb.of_num hfx hfy

lemma value?_float_one : value? (.float 1) = some 1 := by
  have hone : rounded? (.int 1) = some ((1 : ℤ) : ℚ) := rounded?_int_of_lt (by decide)
  rw [rounded?, toFloat, Decimal.ofInt_one, Int.cast_one] at hone
  exact hone

lemma held_int_one : Number.Held (.int 1) := ⟨by decide, 1, congrArg some Int.cast_one⟩

lemma held_float_one : Number.Held (.float 1) := ⟨rfl, 1, value?_float_one⟩

lemma sameValue_one : SameValue (.int 1) (.float 1) :=
  (congrArg some Int.cast_one).trans value?_float_one.symm

lemma holds_singleton {P : Number → Prop} {n : Number} (h : P n) : Holds P (.arr [.num n]) :=
  .arr (List.forall_mem_singleton.mpr (.num h))

lemma like_singleton {R : Number → Number → Prop} (h : R x y) :
    Like R (.arr [.num x]) (.arr [.num y]) := by
  refine .arr rfl fun i a b ha hb => ?_
  rcases i with _ | i
  · cases ha
    cases hb
    exact .num h
  · cases ha

/-- The integer one and the double one are equal, but not as the only items of two arrays, since
arithmetic makes only the first of them. -/
theorem strictEquals_by_value_one :
    Holds Held (.int 1) ∧ Holds Held (.num (.float 1)) ∧ Holds Held (.arr [.int 1]) ∧
    Holds Held (.arr [.num (.float 1)]) ∧ Holds Computed (.arr [.int 1]) ∧
    strictEquals (.int 1) (.num (.float 1)) = true ∧
    strictEquals (.arr [.int 1]) (.arr [.num (.float 1)]) ≠ true ∧
    strictEquals (.arr [.int 1]) (.arr [.int 1]) = true := by
  have hone : Holds Held (.int 1) := .num held_int_one
  have hfloat : Holds Held (.num (.float 1)) := .num held_float_one
  have hones : Holds Held (.arr [.int 1]) := holds_singleton held_int_one
  have hfloats : Holds Held (.arr [.num (.float 1)]) := holds_singleton held_float_one
  have hmade : Holds Computed (.arr [.int 1]) := holds_singleton ⟨1, by decide +kernel⟩
  refine ⟨hone, hfloat, hones, hfloats, hmade, ?_, fun hequal => ?_, ?_⟩
  · obtain ⟨hplain, -, -, hdoubles⟩ := strictEquals_by_value hone hfloat
    have h := hdoubles (.int 1) (.float 1) rfl rfl ⟨1, sameValue_one.symm⟩ ⟨1, rfl⟩
    exact (hplain.mpr h).mpr (.num sameValue_one)
  · obtain ⟨-, hhidden, -, -⟩ := strictEquals_by_value hones hfloats
    have hnot : ¬ Plain (.arr [.int 1]) (.arr [.num (.float 1)]) := fun h => by
      cases h.uniform nofun (like_singleton sameValue_one) with
      | arr _ hitems => nomatch hitems 0 _ _ rfl rfl
    exact nomatch (hhidden hnot).mp hequal
  · obtain ⟨hplain, -, hcomputed, -⟩ := strictEquals_by_value hones hones
    exact (hplain.mpr (hcomputed hmade hmade)).mpr (like_singleton rfl)

/-- Two integers of 64 bits are equal without being the same number, and two arrays are not equal
although their only items are one number, and equal. -/
theorem strictEquals_rounded :
    Holds Held (.int (2 ^ 53)) ∧ Holds Held (.int (2 ^ 53 + 1)) ∧
    strictEquals (.int (2 ^ 53)) (.int (2 ^ 53 + 1)) = true ∧
    ¬ Like SameValue (.int (2 ^ 53)) (.int (2 ^ 53 + 1)) ∧
    Holds Held (.arr [.int 1]) ∧ Holds Held (.arr [.num (.float 1)]) ∧
    Like SameValue (.arr [.int 1]) (.arr [.num (.float 1)]) ∧
    strictEquals (.arr [.int 1]) (.arr [.num (.float 1)]) = false ∧
    strictEquals (.int 1) (.num (.float 1)) = true := by
  refine ⟨.num ⟨by decide, _, rfl⟩, .num ⟨by decide, _, rfl⟩, by decide +kernel, fun hlike => ?_,
    holds_singleton held_int_one, holds_singleton held_float_one, like_singleton sameValue_one,
    by decide +kernel, by decide +kernel⟩
  cases hlike with
  | num h => exact absurd (Int.cast_injective (Option.some.inj h)) (by decide)

end Value

end Stencil
