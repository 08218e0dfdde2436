import Mathlib
import Stencil.Proofs.Decimal.Whole

/-!
The values of doubles.

A finite double stands for a rational number, and two finite doubles are equal exactly if they stand
for the same one: the mantissa is as long as the exponent allows, so that no number is written in
two ways but for the sign of zero. A whole number that is the value of a double is rounded to that
double.
-/

namespace Stencil.Decimal

open Float.Model Float.Model.UnpackedFloat

/-! ### Fields -/

variable {a b f : Float} {x y : Exact} {u v : UnpackedFloat}

lemma exponent_toNat (f : Float) : (@unpackExponent .binary64 f.toModel.toBits.toBitVec).toNat =
    f.toBits.toNat / 2 ^ 52 % 2048 := by
  rw [unpackExponent, BitVec.toNat_cast, BitVec.extractLsb_toNat, Nat.shiftRight_eq_div_pow]
  rfl

lemma mantissa_toNat (f : Float) : (@unpackMantissa .binary64 f.toModel.toBits.toBitVec).toNat =
    f.toBits.toNat % 2 ^ 52 := by
  rw [unpackMantissa, BitVec.toNat_cast, BitVec.extractLsb_toNat, Nat.shiftRight_eq_div_pow,
    Nat.pow_zero, Nat.div_one]
  rfl

lemma sign_eq (f : Float) : Sign.ofBitVec (@unpackSign .binary64 f.toModel.toBits.toBitVec) =
    signOf (f.toBits.toNat / 2 ^ 63 == 1) := by
  have hlt : f.toBits.toNat < 2 ^ 64 := f.toBits.toNat_lt
  have hbit : (@unpackSign .binary64 f.toModel.toBits.toBitVec).toNat =
      f.toBits.toNat / 2 ^ 63 % 2 := by
    rw [unpackSign, BitVec.toNat_cast, BitVec.extractLsb_toNat, Nat.shiftRight_eq_div_pow]
    rfl
  rw [Sign.ofBitVec]
  rcases Nat.lt_or_ge f.toBits.toNat (2 ^ 63) with hlow | hhigh
  · have hzero : f.toBits.toNat / 2 ^ 63 = 0 := by omega
    rw [hzero] at hbit
    rw [if_pos (BitVec.eq_of_toNat_eq hbit), hzero]
    rfl
  · have hone : f.toBits.toNat / 2 ^ 63 = 1 := by omega
    rw [hone] at hbit
    have hne : @unpackSign .binary64 f.toModel.toBits.toBitVec ≠ 0#1 := fun heq => by
      rw [heq] at hbit
      cases hbit
    rw [if_neg hne, hone]
    rfl

/-- The mantissa is as long as the exponent allows. -/
structure Exact.Canonical (x : Exact) : Prop where
  high : x.m < 2 ^ 53
  least : -1074 ≤ x.q
  most : x.q ≤ 971
  full : -1074 < x.q → 2 ^ 52 ≤ x.m

/-- The number that the model of doubles computes with has these fields. -/
inductive Exact.Unpacks (x : Exact) : UnpackedFloat → Prop
  | zero : x.m = 0 → Unpacks x (.zero (signOf x.neg))
  | finite {m : ℕ} {q : ℤ} (hm : 0 < m) : x.m = m → x.q = q →
    Unpacks x (.finite (signOf x.neg) m q hm)

lemma unpacks_of_ofFloat? (h : Exact.ofFloat? f = some x) :
    x.Canonical ∧ x.Unpacks f.toModel.unpack := by
  have hexponent := exponent_toNat f
  have hmantissa := mantissa_toNat f
  have hfield : f.toBits.toNat / 2 ^ 52 % 2048 < 2048 := Nat.mod_lt _ (by decide)
  have hfraction : f.toBits.toNat % 2 ^ 52 < 2 ^ 52 := Nat.mod_lt _ (by decide)
  have hne : f.toBits.toNat / 2 ^ 52 % 2048 ≠ 2047 →
      @unpackExponent .binary64 f.toModel.toBits.toBitVec ≠ -1#11 := fun hmax heq => by
    rw [heq] at hexponent
    exact hmax hexponent.symm
  simp only [Exact.ofFloat?, Nat.pow_eq] at h
  show _ ∧ x.Unpacks (UnpackedFloat.unpack .binary64 f.toModel.toBits.toBitVec)
  rw [UnpackedFloat.unpack, sign_eq]
  dsimp only
  split_ifs at h with hmax hmin
  · have hzero : @unpackExponent .binary64 f.toModel.toBits.toBitVec = 0#11 :=
      BitVec.eq_of_toNat_eq (hexponent.trans hmin)
    rw [if_neg (hne hmax), if_pos hzero]
    cases h
    refine ⟨⟨Nat.lt_trans hfraction (by decide), Int.le_refl _, by dsimp only; omega,
      fun hlt => absurd hlt (Int.lt_irrefl _)⟩, ?_⟩
    split
    · rename_i hnone
      rw [hnone] at hmantissa
      exact .zero hmantissa.symm
    · refine .finite _ hmantissa.symm ?_
      rw [hzero]
      rfl
  · have hnonzero : @unpackExponent .binary64 f.toModel.toBits.toBitVec ≠ 0#11 := fun heq => by
      rw [heq] at hexponent
      exact hmin hexponent.symm
    rw [if_neg (hne hmax), if_neg hnonzero]
    cases h
    refine ⟨⟨by dsimp only; omega, by dsimp only; omega, by dsimp only; omega,
      fun _ => Nat.le_add_right _ _⟩, .finite _ ?_ ?_⟩
    · have hone : (1#1).toNat = 1 := rfl
      rw [BitVec.toNat_append, ← Nat.shiftLeft_add_eq_or_of_lt (BitVec.isLt _), hone,
        Nat.shiftLeft_eq, hmantissa, Nat.one_mul]
    · rw [hexponent]
      rfl

/-! ### Values -/

/-- The rational number that a finite double stands for. -/
def Exact.value (x : Exact) : ℚ := (if x.neg then -1 else 1) * (x.m * 2 ^ x.q)

lemma Exact.abs_value (x : Exact) : |x.value| = x.m * 2 ^ x.q := by
  have hnonneg : (0 : ℚ) ≤ x.m * 2 ^ x.q := by positivity
  rw [value]
  split_ifs
  · rw [neg_one_mul, abs_neg, abs_of_nonneg hnonneg]
  · rw [one_mul, abs_of_nonneg hnonneg]

lemma Exact.value_eq_zero_iff : x.value = 0 ↔ x.m = 0 := by
  rw [← abs_eq_zero, x.abs_value, mul_eq_zero, Nat.cast_eq_zero]
  exact or_iff_left (zpow_ne_zero _ two_ne_zero)

/-- Of two canonical numbers of one size neither has the smaller exponent, unless both are zero. -/
lemma Exact.Canonical.eq_zero_of_lt (hx : x.Canonical) (hy : y.Canonical)
    (h : (x.m : ℚ) * 2 ^ x.q = y.m * 2 ^ y.q) (hlt : x.q < y.q) : x.m = 0 ∧ y.m = 0 := by
  obtain ⟨k, hk, hq⟩ : ∃ k : ℕ, 0 < k ∧ y.q = x.q + k := ⟨(y.q - x.q).toNat, by omega, by omega⟩
  have hm : x.m = y.m * 2 ^ k := by
    rw [hq, zpow_add₀ two_ne_zero, mul_left_comm, mul_comm] at h
    have hcancel := mul_left_cancel₀ (zpow_ne_zero _ two_ne_zero) h
    exact_mod_cast hcancel
  rcases Nat.eq_zero_or_pos y.m with hzero | hpos
  · exact ⟨by rw [hm, hzero, Nat.zero_mul], hzero⟩
  · have hfull := hy.full (by have := hx.least; omega)
    have hhigh := hx.high
    have htwo : 2 ^ 1 ≤ 2 ^ k := Nat.pow_le_pow_right (by decide) hk
    have hle := Nat.mul_le_mul hfull htwo
    omega

/-- A canonical number is the only one with its value, but for the sign of zero. -/
lemma Exact.Canonical.eq_of_value (hx : x.Canonical) (hy : y.Canonical) (h : x.value = y.value) :
    x.m = 0 ∧ y.m = 0 ∨ x = y := by
  have habs : (x.m : ℚ) * 2 ^ x.q = y.m * 2 ^ y.q := by rw [← x.abs_value, h, y.abs_value]
  rcases Int.lt_trichotomy x.q y.q with hlt | hq | hlt
  · exact .inl (hx.eq_zero_of_lt hy habs hlt)
  · have hm : x.m = y.m := by
      rw [hq] at habs
      exact_mod_cast mul_right_cancel₀ (zpow_ne_zero _ two_ne_zero) habs
    rcases Nat.eq_zero_or_pos x.m with hzero | hpos
    · exact .inl ⟨hzero, hm ▸ hzero⟩
    · -- the signs are the same, since the value is not zero
      right
      have hne : (y.m : ℚ) * 2 ^ y.q ≠ 0 :=
        mul_ne_zero (Nat.cast_ne_zero.mpr (hm ▸ hpos.ne')) (zpow_ne_zero _ two_ne_zero)
      have hsign : (if x.neg then (-1 : ℚ) else 1) = if y.neg then -1 else 1 := by
        rw [value, value, hm, hq] at h
        exact mul_right_cancel₀ hne h
      have hneg : x.neg = y.neg := by
        rcases hx' : x.neg <;> rcases hy' : y.neg <;> simp_all <;> norm_num at hsign
      obtain ⟨_, _, _⟩ := x
      obtain ⟨_, _, _⟩ := y
      exact Exact.mk.injEq .. |>.mpr ⟨hneg, hm, hq⟩
  · obtain ⟨hy0, hx0⟩ := hy.eq_zero_of_lt hx habs.symm hlt
    exact .inl ⟨hx0, hy0⟩

/-- The same number, in the same way but for the sign of zero. -/
def Exact.Alike (x y : Exact) : Prop := x.m = 0 ∧ y.m = 0 ∨ x = y

lemma Exact.Canonical.alike_iff (hx : x.Canonical) (hy : y.Canonical) :
    x.Alike y ↔ x.value = y.value := by
  refine ⟨?_, hx.eq_of_value hy⟩
  rintro (⟨hx0, hy0⟩ | rfl)
  · rw [value_eq_zero_iff.mpr hx0, value_eq_zero_iff.mpr hy0]
  · rfl

lemma signOf_inj {n n' : Bool} : signOf n = signOf n' ↔ n = n' := by
  cases n <;> cases n' <;> simp [signOf]

lemma Exact.Unpacks.beq_iff (hu : x.Unpacks u) (hv : y.Unpacks v) : u.beq v ↔ x.Alike y := by
  rw [beq_iff_ne_notANumber_and_eq]
  cases hu with
  | zero hx =>
    cases hv with
    | zero hy =>
      refine iff_of_true ?_ (.inl ⟨hx, hy⟩)
      cases x.neg <;> cases y.neg <;> simp [signOf]
    | finite hpos hm _ =>
      refine iff_of_false (by simp) ?_
      rintro (⟨-, hy⟩ | rfl) <;> omega
  | finite hpos hm hq =>
    subst hm hq
    cases hv with
    | zero hy =>
      refine iff_of_false (by simp) ?_
      rintro (⟨hx, -⟩ | rfl) <;> omega
    | finite hpos' hm hq =>
      subst hm hq
      have hne : ¬ (x.m = 0 ∧ y.m = 0) := fun hzero => hpos.ne' hzero.1
      rw [Alike, or_iff_right hne, Exact.mk.injEq]
      simp [signOf_inj]

/-- **Finite doubles are equal exactly if they stand for the same number.** -/
theorem beq_iff_value (ha : Exact.ofFloat? a = some x) (hb : Exact.ofFloat? b = some y) :
    (a == b) = true ↔ x.value = y.value := by
  obtain ⟨hx, hxa⟩ := unpacks_of_ofFloat? ha
  obtain ⟨hy, hyb⟩ := unpacks_of_ofFloat? hb
  exact (hxa.beq_iff hyb).trans (hx.alike_iff hy)

lemma beq_self_iff : (a == a) = true ↔ a.isNaN = false := by simp

lemma isNaN_eq_false_of_beq (h : (a == b) = true) : a.isNaN = false :=
  beq_self_iff.mp (BEq.trans h (BEq.symm h))

/-! ### Whole numbers -/

variable {i : ℤ} {n : ℕ}

lemma value_whole (neg : Bool) (hlog : n.log2 ≤ 52) :
    (Exact.whole neg n).value = (if neg then -1 else 1) * n := by
  have hexp : ((n.log2 : ℤ) - 52) = -((52 - n.log2 : ℕ) : ℤ) := by omega
  rw [Exact.value, Exact.whole]
  dsimp only
  rw [hexp, zpow_neg, zpow_natCast, Nat.cast_mul, Nat.cast_pow, Nat.cast_ofNat,
    mul_inv_cancel_right₀ (pow_ne_zero _ two_ne_zero)]

lemma roundDiv_bounds {k : ℕ} (h : n.log2 = 52 + k) :
    2 ^ 52 ≤ roundDiv n (2 ^ k) ∧ roundDiv n (2 ^ k) ≤ 2 ^ 53 := by
  have hne : n ≠ 0 := by
    rintro rfl
    rw [Nat.log2_zero] at h
    omega
  obtain ⟨hlow, hhigh⟩ := (Nat.log2_eq_iff hne).mp h
  have hunit := Nat.two_pow_pos k
  have hdiv : 2 ^ 52 ≤ n / 2 ^ k := by
    rw [Nat.le_div_iff_mul_le hunit, ← Nat.pow_add]
    exact hlow
  have hdiv' : n / 2 ^ k < 2 ^ 53 := by
    rw [Nat.div_lt_iff_lt_mul hunit, ← Nat.pow_add]
    rwa [show 53 + k = 52 + k + 1 by omega]
  rw [roundDiv]
  split <;> omega

/-- The nearest double to a number of at least 53 bits, given by its bits. -/
lemma nearest_large {k : ℕ} (neg : Bool) (h : n.log2 = 52 + k) : nearest neg n 1 =
    signed neg (min ((k + 1074) * 2 ^ 52 + roundDiv n (2 ^ k)) (2047 * 2 ^ 52)) := by
  have hne : n ≠ 0 := by
    rintro rfl
    rw [Nat.log2_zero] at h
    omega
  have hlow : 2 ^ (52 + k) ≤ n := ((Nat.log2_eq_iff hne).mp h).1
  have hguess : ((52 + k : ℕ) : ℤ) - (Nat.log2 1 : ℕ) = (52 + k : ℕ) := by
    have hone : Nat.log2 1 = 0 := by decide
    omega
  have hsmall : ¬ n * 2 ^ (-((52 + k : ℕ) : ℤ)).toNat < 2 ^ (52 + k) := by
    have hzero : (-((52 + k : ℕ) : ℤ)).toNat = 0 := by omega
    rw [hzero, Nat.pow_zero, Nat.mul_one]
    exact Nat.not_lt.mpr hlow
  have hexp : max (((52 + k : ℕ) : ℤ) - 52) (-1074) = (k : ℤ) := by omega
  have hdown : (-(k : ℤ)).toNat = 0 := by omega
  have hfield : ((k : ℤ) + 1074).toNat = k + 1074 := by omega
  rw [nearest, if_neg hne]
  simp only [Nat.pow_eq, h, hguess, Int.toNat_natCast, Nat.one_mul, if_neg hsmall, hexp, hdown,
    Nat.pow_zero, Nat.mul_one, hfield]

/-- The nearest double to a number that is the value of a double with a full mantissa. -/
lemma nearest_normal (hx : x.Normal) (hq : 0 ≤ x.q) :
    nearest x.neg (x.m * 2 ^ x.q.toNat) 1 = x.toFloat := by
  have hmost := hx.most
  have hhigh := hx.high
  have hlog : (x.m * 2 ^ x.q.toNat).log2 = 52 + x.q.toNat := by
    rw [log2_mul_two_pow hx.pos, hx.log2_eq]
  have hround : roundDiv (x.m * 2 ^ x.q.toNat) (2 ^ x.q.toNat) = x.m := by
    have hunit := Nat.two_pow_pos x.q.toNat
    simp [roundDiv, Nat.mul_div_cancel _ hunit, hunit]
  have hfield : (x.q + 1074).toNat = x.q.toNat + 1074 := by omega
  rw [nearest_large _ hlog, hround, Nat.min_eq_left (by omega), Exact.toFloat, hfield]

/-- Bits between those of the least normal double and of infinity are those of a normal double. -/
lemma exists_normal_signed {bits : ℕ} (neg : Bool) (hlow : 2 ^ 52 ≤ bits)
    (hhigh : bits < 2047 * 2 ^ 52) : ∃ x : Exact, x.Normal ∧ signed neg bits = x.toFloat := by
  have hfraction : bits % 2 ^ 52 < 2 ^ 52 := Nat.mod_lt _ (by decide)
  refine ⟨⟨neg, 2 ^ 52 + bits % 2 ^ 52, (bits / 2 ^ 52 : ℕ) - 1075⟩, ⟨?_, ?_, ?_, ?_⟩, ?_⟩
  · exact Nat.le_add_right _ _
  · dsimp only
    omega
  · dsimp only
    omega
  · dsimp only
    omega
  · have hbits : ((bits / 2 ^ 52 : ℕ) - 1075 + 1074 : ℤ).toNat * 2 ^ 52 +
        (2 ^ 52 + bits % 2 ^ 52) = bits := by omega
    rw [Exact.toFloat, hbits]

/-- The bits of a whole number that is too large for the mantissa. -/
lemma exists_bits_nearest (neg : Bool) (h : 2 ^ 53 ≤ n) :
    ∃ bits, 2 ^ 52 ≤ bits ∧ bits ≤ 2047 * 2 ^ 52 ∧ (n < 2 ^ 64 → bits < 2047 * 2 ^ 52) ∧
      nearest neg n 1 = signed neg bits := by
  have hne : n ≠ 0 := by omega
  obtain ⟨k, hk⟩ : ∃ k, n.log2 = 52 + k := ⟨n.log2 - 52, by
    have hle : 52 ≤ n.log2 := (Nat.le_log2 hne).mpr (by omega)
    omega⟩
  obtain ⟨hlow, hhigh⟩ := roundDiv_bounds hk
  refine ⟨_, ?_, Nat.min_le_right _ _, fun hlt => ?_, nearest_large neg hk⟩
  · omega
  · have hlog : n.log2 < 64 := (Nat.log2_lt hne).mpr hlt
    omega

/-- The sign of a whole number that is the value of a double. -/
lemma Exact.sign_of_value (h : x.value = i) :
    (if x.neg then -(i.natAbs : ℤ) else i.natAbs) = i := by
  have hnonneg : (0 : ℚ) ≤ x.m * 2 ^ x.q := by positivity
  rw [value] at h
  split_ifs at h ⊢
  · rw [neg_one_mul] at h
    have hi : (i : ℚ) ≤ 0 := by rw [← h]; exact neg_nonpos.mpr hnonneg
    have hi' : i ≤ 0 := by exact_mod_cast hi
    omega
  · rw [one_mul] at h
    have hi : (0 : ℚ) ≤ i := h ▸ hnonneg
    have hi' : 0 ≤ i := by exact_mod_cast hi
    omega

/-- The size of a whole number that is the value of a double. -/
lemma Exact.natAbs_of_value (h : x.value = i) :
    i.natAbs * 2 ^ (-x.q).toNat = x.m * 2 ^ x.q.toNat := by
  have habs : (i.natAbs : ℚ) = x.m * 2 ^ x.q := by
    rw [Nat.cast_natAbs, Int.cast_abs, ← h, x.abs_value]
  have hpow : (2 : ℚ) ^ x.q * 2 ^ (-x.q).toNat = 2 ^ x.q.toNat := by
    rw [← zpow_natCast, ← zpow_natCast, ← zpow_add₀ two_ne_zero]
    congr 1
    omega
  have hscaled : (i.natAbs : ℚ) * 2 ^ (-x.q).toNat = x.m * 2 ^ x.q.toNat := by
    rw [habs, mul_assoc, hpow]
  exact_mod_cast hscaled

/-- A double whose value is a whole number is read as it. -/
lemma toInt?_of_value (hf : Exact.ofFloat? f = some x) (h : x.value = i) : toInt? f = some i := by
  have hsize := Exact.natAbs_of_value h
  have hunit := Nat.two_pow_pos (-x.q).toNat
  -- one of the two powers is one
  have hm : x.m % 2 ^ (-x.q).toNat = 0 ∧ x.m / 2 ^ (-x.q).toNat * 2 ^ x.q.toNat = i.natAbs := by
    rcases Int.le_total 0 x.q with hq | hq
    · rw [Int.toNat_of_nonpos (by omega), Nat.pow_zero] at hsize ⊢
      exact ⟨Nat.mod_one _, by rw [Nat.div_one, ← hsize, Nat.mul_one]⟩
    · rw [Int.toNat_of_nonpos hq, Nat.pow_zero, Nat.mul_one] at hsize ⊢
      rw [← hsize]
      exact ⟨Nat.mul_mod_left _ _, Nat.mul_div_cancel _ hunit⟩
  have hcast : ((x.m : ℤ) / ((2 ^ (-x.q).toNat : ℕ) : ℤ)) * Int.pow 2 x.q.toNat = i.natAbs := by
    rw [← hm.2]
    push_cast
    rfl
  rw [toInt?, hf]
  simp only [Option.bind_eq_bind, Option.bind_some, Nat.pow_eq, hm.1, if_true]
  rw [hcast]
  exact congrArg some (Exact.sign_of_value h)

lemma sign_mul_natAbs (i : ℤ) : (if decide (i < 0) then (-1 : ℚ) else 1) * i.natAbs = i := by
  rw [Nat.cast_natAbs, Int.cast_abs]
  simp only [decide_eq_true_eq]
  split_ifs with hneg
  · rw [abs_of_neg (Int.cast_lt_zero.mpr hneg), neg_one_mul, neg_neg]
  · rw [abs_of_nonneg (Int.cast_nonneg (Int.not_lt.mp hneg)), one_mul]

/-- Whole numbers below `2 ^ 53` in size have doubles with their value. -/
lemma ofFloat?_ofInt_of_lt (h : i.natAbs < 2 ^ 53) :
    ∃ y, Exact.ofFloat? (ofInt i) = some y ∧ y.value = i := by
  rcases Nat.eq_zero_or_pos i.natAbs with hzero | hpos
  · obtain rfl := Int.natAbs_eq_zero.mp hzero
    exact ⟨⟨false, 0, -1074⟩, by decide +kernel, Exact.value_eq_zero_iff.mpr rfl⟩
  · have hnormal := normal_whole (decide (i < 0)) hpos h
    refine ⟨_, by rw [ofInt, nearest_whole _ hpos h, hnormal.ofFloat?_toFloat], ?_⟩
    rw [value_whole _ (log2_le h), sign_mul_natAbs]

/-- **A whole number that is the value of a double is rounded to it.** -/
theorem ofFloat?_ofInt_of_value (hx : x.Canonical) (h : x.value = i) :
    ∃ y, Exact.ofFloat? (ofInt i) = some y ∧ y.value = i := by
  rcases Nat.lt_or_ge i.natAbs (2 ^ 53) with hlow | hlarge
  · exact ofFloat?_ofInt_of_lt hlow
  · -- so large a number has a positive exponent, and its mantissa is full
    have hq : 0 < x.q := by
      by_contra hle
      have hsize : ((2 ^ 53 : ℕ) : ℚ) ≤ x.m * 2 ^ x.q := by
        rw [← x.abs_value, h, ← Int.cast_abs, ← Nat.cast_natAbs]
        exact_mod_cast hlarge
      have hone : (2 : ℚ) ^ x.q ≤ 1 := zpow_le_one_of_nonpos₀ one_le_two (Int.not_lt.mp hle)
      have hsmall : (x.m : ℚ) * 2 ^ x.q ≤ x.m := mul_le_of_le_one_right (Nat.cast_nonneg _) hone
      have hm : 2 ^ 53 ≤ x.m := by exact_mod_cast hsize.trans hsmall
      exact absurd hx.high (Nat.not_lt.mpr hm)
    have hfull := hx.full (by omega)
    have hnormal : x.Normal := ⟨hfull, hx.high, hx.least, hx.most⟩
    have hsign := Exact.sign_of_value h
    have habs : i.natAbs = x.m * 2 ^ x.q.toNat := by
      rw [← Exact.natAbs_of_value h, Int.toNat_of_nonpos (by omega), Nat.pow_zero, Nat.mul_one]
    have hpos : 0 < i.natAbs := habs ▸ Nat.mul_pos hnormal.pos (Nat.two_pow_pos _)
    have hneg : decide (i < 0) = x.neg := by
      rw [Bool.eq_iff_iff, decide_eq_true_iff]
      split_ifs at hsign with hneg
      · exact iff_of_true (by omega) hneg
      · exact iff_of_false (by omega) hneg
    refine ⟨x, ?_, h⟩
    rw [ofInt, habs, hneg, nearest_normal hnormal hq.le, hnormal.ofFloat?_toFloat]

/-- Integers of 64 bits have finite doubles. -/
lemma exists_ofFloat?_ofInt (h : i.natAbs < 2 ^ 64) : ∃ x, Exact.ofFloat? (ofInt i) = some x := by
  rcases Nat.lt_or_ge i.natAbs (2 ^ 53) with hsmall | hlarge
  · obtain ⟨x, hx, -⟩ := ofFloat?_ofInt_of_lt hsmall
    exact ⟨x, hx⟩
  · obtain ⟨bits, hlow, -, hhigh, hbits⟩ := exists_bits_nearest (decide (i < 0)) hlarge
    obtain ⟨x, hx, heq⟩ := exists_normal_signed (decide (i < 0)) hlow (hhigh h)
    exact ⟨x, by rw [ofInt, hbits, heq, hx.ofFloat?_toFloat]⟩

/-- A double that is neither infinite nor a NaN has a value. -/
lemma exists_ofFloat?_of_isFinite (h : f.isFinite = true) : ∃ x, Exact.ofFloat? f = some x := by
  have hexponent := exponent_toNat f
  by_cases hmax : f.toBits.toNat / 2 ^ 52 % 2048 = 2047
  · have hones : @unpackExponent .binary64 f.toModel.toBits.toBitVec = -1#11 :=
      BitVec.eq_of_toNat_eq (hexponent.trans hmax)
    have hfinite : (UnpackedFloat.unpack .binary64 f.toModel.toBits.toBitVec).isFinite = true := h
    rw [UnpackedFloat.unpack] at hfinite
    dsimp only at hfinite
    rw [if_pos hones] at hfinite
    split_ifs at hfinite <;> cases hfinite
  · rw [Exact.ofFloat?]
    simp only [Nat.pow_eq, if_neg hmax]
    split_ifs
    · exact ⟨_, rfl⟩
    · exact ⟨_, rfl⟩

lemma isNaN_of_ofFloat? (h : Exact.ofFloat? f = some x) : f.isNaN = false := by
  obtain ⟨-, hunpacks⟩ := unpacks_of_ofFloat? h
  refine Bool.eq_false_iff.mpr fun hnan => ?_
  rw [isNaN_iff.mp hnan] at hunpacks
  cases hunpacks

/-- Integers of any size have doubles that are numbers. -/
lemma isNaN_ofInt (i : ℤ) : (ofInt i).isNaN = false := by
  rcases Nat.lt_or_ge i.natAbs (2 ^ 53) with hsmall | hlarge
  · obtain ⟨x, hx, -⟩ := ofFloat?_ofInt_of_lt hsmall
    exact isNaN_of_ofFloat? hx
  · obtain ⟨bits, hlow, hhigh, -, hbits⟩ := exists_bits_nearest (decide (i < 0)) hlarge
    rw [ofInt, hbits]
    rcases Nat.lt_or_eq_of_le hhigh with hlt | rfl
    · obtain ⟨x, hx, heq⟩ := exists_normal_signed (decide (i < 0)) hlow hlt
      exact isNaN_of_ofFloat? (heq ▸ hx.ofFloat?_toFloat)
    · cases decide (i < 0) <;> decide +kernel

end Stencil.Decimal
