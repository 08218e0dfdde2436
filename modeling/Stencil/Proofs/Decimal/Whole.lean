import Mathlib.Data.Nat.Log
import Mathlib.Tactic.Ring
import Stencil.Value

/-!
Whole numbers as doubles.

A whole number below `2 ^ 53` in size is a double exactly. It is read back as the integer that it
is, doubles of such numbers are ordered as the numbers are, and adding one to them is exact.
-/

namespace Stencil.Decimal

open Float.Model Float.Model.UnpackedFloat

/-! ### Normal doubles -/

/-- The mantissa has all of its 53 bits, and the exponent is in range. -/
structure Exact.Normal (x : Exact) : Prop where
  low : 2 ^ 52 ≤ x.m
  high : x.m < 2 ^ 53
  least : -1074 ≤ x.q
  most : x.q ≤ 971

/-- The double with an exact value. -/
def Exact.toFloat (x : Exact) : Float := signed x.neg ((x.q + 1074).toNat * 2 ^ 52 + x.m)

def signOf (neg : Bool) : Sign := if neg then .negative else .positive

variable {x : Exact}

namespace Exact.Normal

lemma pos (h : x.Normal) : 0 < x.m := Nat.lt_of_lt_of_le (by decide) h.low

lemma log2_eq (h : x.Normal) : x.m.log2 = 52 :=
  (Nat.log2_eq_iff h.pos.ne').mpr ⟨h.low, h.high⟩

/-- The bits of the double as a whole number. -/
def word (x : Exact) : ℕ :=
  (x.q + 1074).toNat * 2 ^ 52 + x.m + if x.neg then Nat.pow 2 63 else 0

/-- The number that the model of doubles computes with. -/
def unpacked (h : x.Normal) : UnpackedFloat := .finite (signOf x.neg) x.m x.q h.pos

lemma word_lt (h : x.Normal) : word x < 2 ^ 64 := by
  have hhigh := h.high
  have hmost := h.most
  have hpow : Nat.pow 2 63 = 2 ^ 63 := rfl
  rw [word, hpow]
  split <;> omega

/-- The exponent field lies strictly between that of zero and that of infinity. -/
lemma field (h : x.Normal) : ∃ k, 0 < k ∧ k < 2047 ∧ (x.q + 1075).toNat = k ∧ x.q = k - 1075 := by
  have hleast := h.least
  have hmost := h.most
  exact ⟨(x.q + 1075).toNat, by omega, by omega, rfl, by omega⟩

lemma pack (h : x.Normal) :
    UnpackedFloat.pack .binary64 h.unpacked =
      packComponents .binary64 (signOf x.neg) (BitVec.ofNat 11 (x.q + 1075).toNat)
        (BitVec.ofNat 52 x.m) := by
  have hleast := h.least
  have hmost := h.most
  have hbias : (x.q + Format.binary64.exponentBias +
      Format.binary64.mantissaBitsWithoutImplicit).toNat = (x.q + 1075).toNat := by
    show (x.q + (2 ^ (11 - 1) - 1 : Nat) + (52 : Nat)).toNat = (x.q + 1075).toNat
    omega
  have hbits : x.m.log2 + 1 = Format.binary64.mantissaBits := by
    rw [h.log2_eq]
    rfl
  have hfinite : ¬ 2 ^ 11 ≤ (x.q + 1075).toNat + 1 := by omega
  rw [← hbias] at hfinite ⊢
  exact (if_neg hfinite).trans (if_pos hbits)

/-- The fields of the double stand one after the other in its bits. -/
lemma bits_eq (h : x.Normal) :
    BitVec.ofNat 64 (word x) = UnpackedFloat.pack .binary64 h.unpacked := by
  obtain ⟨k, hk, hk', hfield, -⟩ := h.field
  have hlow := h.low
  have hhigh := h.high
  have hq : (x.q + 1074).toNat + 1 = k := by omega
  have hword : word x = (if x.neg then 2 ^ 63 else 0) + (k * 2 ^ 52 + (x.m - 2 ^ 52)) := by
    have hpow : Nat.pow 2 63 = 2 ^ 63 := rfl
    rw [word, hpow]
    omega
  have hm : x.m % 2 ^ 52 = x.m - 2 ^ 52 := by omega
  have hsign : (signOf x.neg).toBitVec.toNat = if x.neg then 1 else 0 := by
    cases x.neg <;> rfl
  rw [h.pack, hfield]
  apply BitVec.eq_of_toNat_eq
  rw [BitVec.toNat_ofNat, Nat.mod_eq_of_lt h.word_lt, hword, packComponents]
  have hexponent : ((signOf x.neg).toBitVec ++ BitVec.ofNat 11 k).toNat =
      (if x.neg then 1 else 0) * 2 ^ 11 + k := by
    rw [BitVec.toNat_append, ← Nat.shiftLeft_add_eq_or_of_lt (BitVec.isLt _), hsign,
      Nat.shiftLeft_eq, BitVec.toNat_ofNat, Nat.mod_eq_of_lt (by omega)]
  have hall : ((signOf x.neg).toBitVec ++ BitVec.ofNat 11 k ++ BitVec.ofNat 52 x.m).toNat =
      ((if x.neg then 1 else 0) * 2 ^ 11 + k) * 2 ^ 52 + (x.m - 2 ^ 52) := by
    rw [BitVec.toNat_append, ← Nat.shiftLeft_add_eq_or_of_lt (BitVec.isLt _), hexponent,
      Nat.shiftLeft_eq, BitVec.toNat_ofNat, hm]
  refine Eq.trans ?_ hall.symm
  split <;> omega

lemma unpackSign_pack (h : x.Normal) :
    Sign.ofBitVec (unpackSign (UnpackedFloat.pack .binary64 h.unpacked)) = signOf x.neg := by
  rw [h.pack]
  show Sign.ofBitVec (BitVec.extractLsb' 63 1 ((signOf x.neg).toBitVec ++
    BitVec.ofNat 11 (x.q + 1075).toNat ++ BitVec.ofNat 52 x.m)) = signOf x.neg
  rw [BitVec.extractLsb'_append_eq_of_le (by omega), BitVec.extractLsb'_append_eq_of_le (by omega)]
  cases x.neg <;> rfl

lemma unpack_pack (h : x.Normal) :
    UnpackedFloat.unpack .binary64 (UnpackedFloat.pack .binary64 h.unpacked) = h.unpacked := by
  obtain ⟨k, hk, hk', hfield, hq⟩ := h.field
  have hlow := h.low
  have hhigh := h.high
  have hnat : (BitVec.ofNat 11 k).toNat = k := by
    rw [BitVec.toNat_ofNat, Nat.mod_eq_of_lt (by omega)]
  have hne : BitVec.ofNat 11 k ≠ -1#11 := fun heq => by
    have := hnat.symm.trans (congrArg BitVec.toNat heq)
    have hmax : (-1#11).toNat = 2047 := rfl
    omega
  have hne' : BitVec.ofNat 11 k ≠ 0#11 := fun heq => by
    have := hnat.symm.trans (congrArg BitVec.toNat heq)
    have hzero : (0#11).toNat = 0 := rfl
    omega
  have hmantissa : (1#1 ++ BitVec.ofNat 52 x.m).toNat = x.m := by
    have hone : (1#1).toNat = 1 := rfl
    rw [BitVec.toNat_append, ← Nat.shiftLeft_add_eq_or_of_lt (BitVec.isLt _), hone,
      Nat.shiftLeft_eq, BitVec.toNat_ofNat]
    omega
  have hexponent : (k : Int) -
      (Format.binary64.exponentBias + Format.binary64.mantissaBitsWithoutImplicit) = x.q := by
    show (k : Int) - ((1023 : Nat) + (52 : Nat)) = x.q
    omega
  have hmantissaVec : unpackMantissa (UnpackedFloat.pack .binary64 h.unpacked) =
      BitVec.ofNat 52 x.m := by
    rw [h.pack, unpackMantissa_packComponents]
  have hexponentVec : unpackExponent (UnpackedFloat.pack .binary64 h.unpacked) =
      BitVec.ofNat 11 k := by
    rw [h.pack, unpackExponent_packComponents, hfield]
  rw [← hexponentVec] at hne hne' hnat
  rw [← hmantissaVec] at hmantissa
  rw [← hnat] at hexponent
  refine ((if_neg hne).trans (if_neg hne')).trans ?_
  rw [unpacked, UnpackedFloat.finite.injEq]
  exact ⟨h.unpackSign_pack, hmantissa, hexponent⟩

lemma toModel_eq (h : x.Normal) : x.toFloat.toModel = Float.Model.pack h.unpacked := by
  have hunpack : UnpackedFloat.unpack .binary64 (BitVec.ofNat 64 (word x)) = h.unpacked := by
    rw [h.bits_eq, h.unpack_pack]
  show Float.Model.pack (UnpackedFloat.unpack .binary64 (BitVec.ofNat 64 (word x))) = _
  rw [hunpack]

lemma toModel_unpack (h : x.Normal) : x.toFloat.toModel.unpack = h.unpacked := by
  rw [h.toModel_eq]
  exact h.unpack_pack

lemma toBits_toNat (h : x.Normal) : x.toFloat.toBits.toNat = word x := by
  have hbits : x.toFloat.toBits.toBitVec = BitVec.ofNat 64 (word x) := by
    rw [h.bits_eq]
    exact congrArg (·.toBits.toBitVec) h.toModel_eq
  rw [← UInt64.toNat_toBitVec, hbits, BitVec.toNat_ofNat, Nat.mod_eq_of_lt h.word_lt]

lemma ofFloat?_toFloat (h : x.Normal) : Exact.ofFloat? x.toFloat = some x := by
  obtain ⟨k, hk, hk', hfield, hq⟩ := h.field
  have hlow := h.low
  have hhigh := h.high
  have hword : word x = k * 2 ^ 52 + (x.m - 2 ^ 52) + if x.neg then 2 ^ 63 else 0 := by
    have hpow : Nat.pow 2 63 = 2 ^ 63 := rfl
    rw [word, hpow]
    omega
  have hexponent : word x / Nat.pow 2 52 % 2048 = k := by
    rw [hword, Nat.pow_eq]
    split <;> omega
  have hfraction : Nat.pow 2 52 + word x % Nat.pow 2 52 = x.m := by
    rw [hword, Nat.pow_eq]
    split <;> omega
  have hneg : (word x / Nat.pow 2 63 == 1) = x.neg := by
    rw [hword]
    cases x.neg <;> simp <;> omega
  rw [Exact.ofFloat?, h.toBits_toNat]
  simp only [hexponent, hfraction, hneg]
  rw [if_neg (by omega), if_neg (by omega), ← hq]

end Exact.Normal

/-! ### Whole numbers -/

/-- A whole number as a double, its mantissa shifted up to 53 bits. -/
def Exact.whole (neg : Bool) (n : ℕ) : Exact := ⟨neg, n * 2 ^ (52 - n.log2), n.log2 - 52⟩

variable {n m : ℕ} {i : Int}

lemma log2_le (h : n < 2 ^ 53) : n.log2 ≤ 52 := by
  rcases Nat.eq_zero_or_pos n with rfl | hpos
  · decide
  · have hlt : n.log2 < 53 := (Nat.log2_lt hpos.ne').mpr h
    omega

lemma normal_whole (neg : Bool) (hpos : 0 < n) (h : n < 2 ^ 53) : (Exact.whole neg n).Normal := by
  have hlog := log2_le h
  have hpow : 2 ^ 52 = 2 ^ n.log2 * 2 ^ (52 - n.log2) := by
    rw [← Nat.pow_add]
    congr 1
    omega
  refine ⟨?_, ?_, ?_, ?_⟩
  · show 2 ^ 52 ≤ n * 2 ^ (52 - n.log2)
    rw [hpow]
    exact Nat.mul_le_mul_right _ (Nat.log2_self_le hpos.ne')
  · show n * 2 ^ (52 - n.log2) < 2 ^ 53
    calc n * 2 ^ (52 - n.log2) < 2 ^ (n.log2 + 1) * 2 ^ (52 - n.log2) :=
          Nat.mul_lt_mul_of_pos_right Nat.lt_log2_self (Nat.two_pow_pos _)
      _ = 2 ^ 53 := by
          rw [← Nat.pow_add]
          congr 1
          omega
  · show -1074 ≤ (n.log2 : Int) - 52
    omega
  · show (n.log2 : Int) - 52 ≤ 971
    omega

/-- The nearest double to a whole number is the number itself. -/
lemma nearest_whole (neg : Bool) (hpos : 0 < n) (h : n < 2 ^ 53) :
    nearest neg n 1 = (Exact.whole neg n).toFloat := by
  have hlog := log2_le h
  have hhigh : n * 2 ^ (52 - n.log2) < 2 ^ 53 := (normal_whole neg hpos h).high
  have hle : 2 ^ n.log2 ≤ n := Nat.log2_self_le hpos.ne'
  -- the quotient has the exponent of the number, and is whole already
  have hguess : (n.log2 : Int) - (Nat.log2 1 : ℕ) = n.log2 := by
    have hone : Nat.log2 1 = 0 := by decide
    omega
  have hsmall : ¬ n * 2 ^ (-(n.log2 : Int)).toNat < 1 * 2 ^ n.log2 := by
    have hzero : (-(n.log2 : Int)).toNat = 0 := by omega
    rw [hzero]
    omega
  have hq : max ((n.log2 : Int) - 52) (-1074) = n.log2 - 52 := by omega
  have hup : (-((n.log2 : Int) - 52)).toNat = 52 - n.log2 := by omega
  have hdown : ((n.log2 : Int) - 52).toNat = 0 := by omega
  have hround (k : ℕ) : roundDiv k 1 = k := by
    rw [roundDiv]
    simp [Nat.mod_one]
  have hmost : ((n.log2 : Int) - 52 + 1074).toNat * 2 ^ 52 + n * 2 ^ (52 - n.log2) ≤
      2047 * 2 ^ 52 := by
    have hfield : ((n.log2 : Int) - 52 + 1074).toNat ≤ 1074 := by omega
    omega
  rw [nearest, if_neg hpos.ne']
  simp only [Nat.pow_eq, hguess, Int.toNat_natCast, if_neg hsmall, hq, hup, hdown, Nat.pow_zero,
    Nat.mul_one, hround]
  rw [Nat.min_eq_left hmost]
  rfl

lemma ofInt_natCast (hpos : 0 < n) (h : n < 2 ^ 53) :
    ofInt n = (Exact.whole false n).toFloat := by
  have hneg : decide ((n : Int) < 0) = false := decide_eq_false (by omega)
  rw [ofInt, hneg, Int.natAbs_natCast, nearest_whole false hpos h]

/-- Whole numbers below `2 ^ 53` in size are read back from their doubles. -/
lemma toInt?_ofInt (h : i.natAbs < 2 ^ 53) : toInt? (ofInt i) = some i := by
  rcases Nat.eq_zero_or_pos i.natAbs with h0 | hpos
  · obtain rfl := Int.natAbs_eq_zero.mp h0
    decide +kernel
  · have hlog := log2_le h
    have hnormal := normal_whole (decide (i < 0)) hpos h
    have hup : (-((i.natAbs.log2 : Int) - 52)).toNat = 52 - i.natAbs.log2 := by omega
    have hdown : ((i.natAbs.log2 : Int) - 52).toNat = 0 := by omega
    have hunit : (2 : Int) ^ (52 - i.natAbs.log2) ≠ 0 := pow_ne_zero _ (by decide)
    have hone : Int.pow 2 0 = 1 := rfl
    rw [ofInt, nearest_whole _ hpos h, toInt?, hnormal.ofFloat?_toFloat]
    simp only [Option.bind_eq_bind, Option.bind_some, Exact.whole, hup, hdown, Nat.pow_eq,
      Nat.mul_mod_left, if_true, Nat.cast_mul, Nat.cast_pow, Nat.cast_ofNat]
    rw [Int.mul_ediv_cancel _ hunit, hone, Int.mul_one]
    refine congrArg some ?_
    simp only [decide_eq_true_eq]
    split <;> omega

/-! ### Arithmetic -/

/-- Bits that are shifted out are all zero. -/
lemma shiftRight_mul (k m : ℕ) :
    (⟨m * 2 ^ k, false, false⟩ : ExtendedMantissa) >>> k = ⟨m, false, false⟩ := by
  show Nat.repeat ExtendedMantissa.shiftRightOne k ⟨m * 2 ^ k, false, false⟩ = ⟨m, false, false⟩
  induction k generalizing m with
  | zero => rw [Nat.pow_zero, Nat.mul_one, Nat.repeat]
  | succ k ih =>
    have hm : m * 2 ^ (k + 1) = 2 * m * 2 ^ k := by ring
    have hstep : ExtendedMantissa.shiftRightOne ⟨2 * m, false, false⟩ = ⟨m, false, false⟩ := by
      simp [ExtendedMantissa.shiftRightOne]
    rw [hm, Nat.repeat, ih, hstep]

lemma targetExponent_eq (t : Int) : Format.binary64.targetExponent t = max (t - 53) (-1074) := rfl

lemma shiftToTargetExponent_mul {k : ℕ} {e t : Int}
    (h : Format.binary64.targetExponent (totalExponent (m * 2 ^ k) e) = t) (hk : t = e + k) :
    shiftToTargetExponent .binary64 (m * 2 ^ k) e .exact = (.mk m false false, t) := by
  subst hk
  have hshift : (e + (k : Int) - e).toNat = k := by omega
  simp only [shiftToTargetExponent, h, shiftToExponent, hshift,
    ExtendedMantissa.ofMantissaAndAccuracy, shiftRight_mul]

lemma log2_mul_two_pow (hpos : 0 < n) (k : ℕ) : (n * 2 ^ k).log2 = n.log2 + k := by
  refine (Nat.log2_eq_iff (Nat.mul_pos hpos (Nat.two_pow_pos k)).ne').mpr ⟨?_, ?_⟩
  · rw [Nat.pow_add]
    exact Nat.mul_le_mul_right _ (Nat.log2_self_le hpos.ne')
  · have hexp : n.log2 + k + 1 = n.log2 + 1 + k := by omega
    rw [hexp, Nat.pow_add]
    exact Nat.mul_lt_mul_of_pos_right Nat.lt_log2_self (Nat.two_pow_pos k)

/-- A mantissa with zeros at its end is rounded to what stands before them, if that has its
bits. -/
lemma round_mul {k : ℕ} {e t : Int} (s : Sign) (hm : 0 < m)
    (h : Format.binary64.targetExponent (totalExponent (m * 2 ^ k) e) = t) (hk : t = e + k)
    (hfits : Format.binary64.targetExponent (totalExponent m t) = t) :
    UnpackedFloat.round .binary64 s (m * 2 ^ k) e = .finite s m t hm := by
  have hdecrease : decreaseExponent (m * 2 ^ k) e t = (m * 2 ^ k, e) := by
    have hzero : (e - t).toNat = 0 := by omega
    simp only [decreaseExponent, hzero, Nat.shiftLeft_zero]
    simp
  have hfirst := shiftToTargetExponent_mul h hk
  have hsecond : shiftToTargetExponent .binary64 m t .exact = (.mk m false false, t) := by
    have hshift := shiftToTargetExponent_mul (m := m) (k := 0) (e := t) (t := t)
    rw [Nat.pow_zero, Nat.mul_one] at hshift
    exact hshift hfits (by omega)
  have hrounded : ExtendedMantissa.roundedMantissa ⟨m, false, false⟩ = m := rfl
  rw [UnpackedFloat.round]
  dsimp only
  rw [h, hdecrease, roundWithAccuracy, hfirst]
  dsimp only
  rw [hrounded, hsecond]
  exact dif_neg hm.ne'

/-- A whole number given in units of `2 ^ -52` is rounded to itself. -/
lemma round_whole (hpos : 0 < n) (h : n < 2 ^ 53) :
    UnpackedFloat.round .binary64 .positive (n * 2 ^ 52) (-52) =
      (normal_whole false hpos h).unpacked := by
  have hlog := log2_le h
  have hmantissa : n * 2 ^ 52 = n * 2 ^ (52 - n.log2) * 2 ^ n.log2 := by
    rw [Nat.mul_assoc, ← Nat.pow_add, Nat.sub_add_cancel hlog]
  have hnormal := normal_whole false hpos h
  rw [hmantissa]
  refine round_mul (t := (n.log2 : Int) - 52) .positive hnormal.pos ?_ (by omega) ?_
  · show Format.binary64.targetExponent
      (totalExponent (n * 2 ^ (52 - n.log2) * 2 ^ n.log2) (-52)) = n.log2 - 52
    rw [← hmantissa, totalExponent, log2_mul_two_pow hpos, targetExponent_eq]
    omega
  · rw [totalExponent, hnormal.log2_eq, targetExponent_eq]
    omega

lemma normalize_natCast {k : ℕ} {e : Int} {s : Sign} (hk : 0 < k) :
    UnpackedFloat.normalize .binary64 k e s = UnpackedFloat.round .binary64 .positive k e := by
  have hgt : compare (k : Int) 0 = .gt := compare_gt_iff_gt.mpr (by omega)
  rw [UnpackedFloat.normalize, hgt, Int.toNat_natCast]

lemma ofInt_one : ofInt 1 = 1 := by decide +kernel

/-- Adding one to a whole number below `2 ^ 53` is exact. -/
lemma ofInt_add_one (h : n + 1 < 2 ^ 53) : ofInt n + 1 = ofInt (n + 1 : ℕ) := by
  rcases Nat.eq_zero_or_pos n with rfl | hpos
  · decide +kernel
  · have hlog := log2_le (Nat.lt_of_succ_lt h)
    have hn := normal_whole false hpos (Nat.lt_of_succ_lt h)
    have hsucc := normal_whole false (Nat.succ_pos n) h
    have hone := normal_whole false Nat.one_pos (by decide)
    -- both numbers in units of `2 ^ -52`
    have hmin : min ((n.log2 : Int) - 52) (0 - 52) = -52 := by omega
    have hleft : decreaseExponent (n * 2 ^ (52 - n.log2)) (n.log2 - 52) (-52) =
        (n * 2 ^ 52, -52) := by
      have hshift : ((n.log2 : Int) - 52 - -52).toNat = n.log2 := by omega
      have hmantissa : n * 2 ^ (52 - n.log2) * 2 ^ n.log2 = n * 2 ^ 52 := by
        rw [Nat.mul_assoc, ← Nat.pow_add, Nat.sub_add_cancel hlog]
      simp only [decreaseExponent, hshift, Nat.shiftLeft_eq, hmantissa]
      refine congrArg _ ?_
      omega
    have hright : decreaseExponent (2 ^ 52) (0 - 52) (-52) = (2 ^ 52, -52) := by decide +kernel
    have hadd : UnpackedFloat.add .binary64 hn.unpacked hone.unpacked = hsucc.unpacked := by
      have hunpacked : UnpackedFloat.add .binary64 hn.unpacked hone.unpacked =
        UnpackedFloat.add .binary64 (.finite .positive (n * 2 ^ (52 - n.log2)) (n.log2 - 52) hn.pos)
          (.finite .positive (2 ^ 52) (0 - 52) (by decide)) := rfl
      have hsum : Sign.positive.apply ((n * 2 ^ 52 : ℕ) : Int) +
          Sign.positive.apply ((2 ^ 52 : ℕ) : Int) = ((n + 1) * 2 ^ 52 : ℕ) := by
        show ((n * 2 ^ 52 : ℕ) : Int) + ((2 ^ 52 : ℕ) : Int) = ((n + 1) * 2 ^ 52 : ℕ)
        omega
      rw [hunpacked, UnpackedFloat.add.eq_def]
      dsimp only
      rw [hmin, hleft, hright]
      dsimp only
      rw [hsum, normalize_natCast (by omega), round_whole (Nat.succ_pos n) h]
    have hone' : (1 : Float) = (Exact.whole false 1).toFloat := by
      rw [← ofInt_one]
      exact ofInt_natCast Nat.one_pos (by decide)
    have hsum : ofInt n + 1 = ⟨Float.Model.pack (UnpackedFloat.add .binary64
        (ofInt n).toModel.unpack (1 : Float).toModel.unpack)⟩ := rfl
    rw [hsum, hone', ofInt_natCast hpos (Nat.lt_of_succ_lt h), hn.toModel_unpack, hone.toModel_unpack,
      hadd, ofInt_natCast (Nat.succ_pos n) h, ← hsucc.toModel_eq]

lemma log2_mono (hpos : 0 < n) (h : n ≤ m) : n.log2 ≤ m.log2 :=
  (Nat.le_log2 (by omega)).mpr (Nat.le_trans (Nat.log2_self_le hpos.ne') h)

/-- Of two numbers the one with the larger exponent is larger, and of two with one exponent the
one with the larger mantissa. -/
lemma compare_whole (hn : 0 < n) (hm : 0 < m) :
    ((compare ((n.log2 : Int) - 52) (m.log2 - 52)).then
      (compare (n * 2 ^ (52 - n.log2)) (m * 2 ^ (52 - m.log2)))) = .lt ↔ n < m := by
  rw [Ordering.then_eq_lt, compare_lt_iff_lt, compare_eq_iff_eq, compare_lt_iff_lt]
  constructor
  · rintro (hlt | ⟨heq, hlt⟩)
    · by_contra hle
      have hmono := log2_mono hm (Nat.not_lt.mp hle)
      omega
    · have hlog : n.log2 = m.log2 := by omega
      rw [hlog] at hlt
      exact Nat.lt_of_mul_lt_mul_right hlt
  · intro hlt
    rcases Nat.lt_or_eq_of_le (log2_mono hn hlt.le) with hlog | hlog
    · exact .inl (by omega)
    · refine .inr ⟨by omega, ?_⟩
      rw [hlog]
      exact Nat.mul_lt_mul_of_pos_right hlt (Nat.two_pow_pos _)

lemma lt_iff_compare {a b : Float} :
    a < b ↔ UnpackedFloat.compare a.toModel.unpack b.toModel.unpack = some .lt := by
  have hmodel : a < b ↔ a.toModel < b.toModel := decide_eq_true_iff
  exact hmodel.trans beq_iff_eq

/-- Doubles of whole numbers are ordered as the numbers are. -/
lemma ofInt_lt (hn : n < 2 ^ 53) (hm : m < 2 ^ 53) : ofInt n < ofInt m ↔ n < m := by
  have hzero : (ofInt 0).toModel.unpack = .zero .positive := by rfl
  rw [lt_iff_compare]
  rcases Nat.eq_zero_or_pos n with rfl | hn0 <;> rcases Nat.eq_zero_or_pos m with rfl | hm0
  · rw [Nat.cast_zero, hzero]
    exact iff_of_false (by rintro ⟨⟩) (Nat.lt_irrefl 0)
  · rw [Nat.cast_zero, hzero, ofInt_natCast hm0 hm, (normal_whole false hm0 hm).toModel_unpack]
    exact iff_of_true rfl hm0
  · rw [Nat.cast_zero, hzero, ofInt_natCast hn0 hn, (normal_whole false hn0 hn).toModel_unpack]
    exact iff_of_false (by rintro ⟨⟩) (Nat.not_lt_zero n)
  · rw [ofInt_natCast hn0 hn, ofInt_natCast hm0 hm, (normal_whole false hn0 hn).toModel_unpack,
      (normal_whole false hm0 hm).toModel_unpack, ← compare_whole hn0 hm0]
    exact Option.some_inj

end Stencil.Decimal

namespace Stencil.Value

lemma ofFloat_ofInt {i : Int} (h : i.natAbs < 2 ^ 53) : ofFloat (Decimal.ofInt i) = int i := by
  have hlt : i.natAbs < Nat.pow 2 53 := h
  simp only [ofFloat, Number.ofFloat?, Decimal.toInt?_ofInt h, if_pos hlt]
  rfl

end Stencil.Value
