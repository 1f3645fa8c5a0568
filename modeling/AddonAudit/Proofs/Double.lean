import AddonAudit.Number.Double
import Mathlib

/-!
# Whole numbers as doubles

A double that is finite has an exact value. Up to `2 ^ 53` every natural number is the value of a
double, and converting it gives that double: the mantissa is shifted until it has its 53 bits, and
when it is rounded only zeros are lost. No natural number, however large, is converted to the double
that is no number.
-/

namespace AddonAudit

/-- The value of a sign, a mantissa and an exponent. -/
def Dyadic.value (d : Dyadic) : ℚ :=
  (if d.negative then -1 else 1) * d.mantissa * 2 ^ d.exponent

namespace Number

open Float.Model Float.Model.UnpackedFloat

/-- A double is finite and has a value. -/
def HasValue (x : Float) (q : ℚ) : Prop :=
  ∃ d, Dyadic.ofFloat? x = some d ∧ d.value = q

section Packing

variable {s : Sign} {m : Nat} {e : Int} {positive : 0 < m}

/-- The bits of a double as a number. -/
theorem toNat_packComponents (s : Sign) (exponent : BitVec 11) (mantissa : BitVec 52) :
    (packComponents .binary64 s exponent mantissa).toNat =
      s.toBitVec.toNat * 2 ^ 63 + exponent.toNat * 2 ^ 52 + mantissa.toNat := by
  change (s.toBitVec ++ exponent ++ mantissa).toNat = _
  rw [BitVec.toNat_append, BitVec.toNat_append, ← Nat.shiftLeft_add_eq_or_of_lt mantissa.isLt,
    ← Nat.shiftLeft_add_eq_or_of_lt exponent.isLt, Nat.shiftLeft_eq, Nat.shiftLeft_eq]
  omega

/-- A mantissa with its first bit set has 53 bits. -/
theorem log2_eq_of_normal (low : 2 ^ 52 ≤ m) (high : m < 2 ^ 53) : m.log2 = 52 :=
  (Nat.log2_eq_iff (by omega)).2 ⟨low, high⟩

/-- The bits of a normal double: its sign, the exponent and the mantissa without its first bit. -/
theorem pack_normal (low : 2 ^ 52 ≤ m) (high : m < 2 ^ 53) (least : -1074 ≤ e)
    (greatest : e ≤ 971) :
    UnpackedFloat.pack .binary64 (.finite s m e positive) =
      packComponents .binary64 s (BitVec.ofNat 11 (e + 1075).toNat) (BitVec.ofNat 52 m) := by
  have log := log2_eq_of_normal low high
  have biased :
      (e + Format.binary64.exponentBias + Format.binary64.mantissaBitsWithoutImplicit).toNat =
      (e + 1075).toNat := by
    change (e + (1023 : Nat) + (52 : Nat)).toNat = _
    omega
  rw [UnpackedFloat.pack]
  simp only [log, biased]
  rw [if_neg (by omega), if_pos (by rfl)]

theorem ofNat_exponent_ne (least : -1074 ≤ e) (greatest : e ≤ 971) :
    BitVec.ofNat 11 (e + 1075).toNat ≠ -1#11 ∧ BitVec.ofNat 11 (e + 1075).toNat ≠ 0#11 := by
  have number : (BitVec.ofNat 11 (e + 1075).toNat).toNat = (e + 1075).toNat := by
    rw [BitVec.toNat_ofNat, Nat.mod_eq_of_lt (by omega)]
  constructor
  · intro same
    have numbers := congrArg BitVec.toNat same
    rw [number, show (-1#11).toNat = 2047 from rfl] at numbers
    omega
  · intro same
    have numbers := congrArg BitVec.toNat same
    rw [number, show (0#11).toNat = 0 from rfl] at numbers
    omega

/-- Packing a normal double loses nothing. -/
theorem unpack_pack_normal (low : 2 ^ 52 ≤ m) (high : m < 2 ^ 53) (least : -1074 ≤ e)
    (greatest : e ≤ 971) :
    (Float.Model.pack (.finite s m e positive)).unpack = .finite s m e positive := by
  obtain ⟨notOnes, notZero⟩ := ofNat_exponent_ne least greatest
  have mantissa : (1#1 ++ BitVec.ofNat 52 m).toNat = m := by
    rw [BitVec.toNat_append, ← Nat.shiftLeft_add_eq_or_of_lt (BitVec.ofNat 52 m).isLt,
      BitVec.toNat_ofNat, Nat.shiftLeft_eq]
    change 1 * 2 ^ 52 + m % 2 ^ 52 = m
    omega
  have exponent : ((BitVec.ofNat 11 (e + 1075).toNat).toNat : Int) -
      (Format.binary64.exponentBias + Format.binary64.mantissaBitsWithoutImplicit) = e := by
    change ((BitVec.ofNat 11 (e + 1075).toNat).toNat : Int) - ((1023 : Nat) + (52 : Nat)) = e
    rw [BitVec.toNat_ofNat, Nat.mod_eq_of_lt (by omega)]
    omega
  change UnpackedFloat.unpack .binary64 (UnpackedFloat.pack .binary64 _) = _
  rw [pack_normal low high least greatest, UnpackedFloat.unpack]
  simp only [unpackMantissa_packComponents, unpackExponent_packComponents,
    unpackSign_packComponents, Sign.ofBitVec_toBitVec, if_neg notOnes, if_neg notZero,
    mantissa, exponent]

/-- Bits whose exponent is not the highest one are a number. -/
theorem isNaN_unpack_packComponents {exponent : BitVec 11} (notOnes : exponent ≠ -1#11) (s : Sign)
    (mantissa : BitVec 52) :
    (UnpackedFloat.unpack .binary64 (packComponents .binary64 s exponent mantissa)).isNaN =
      false := by
  rw [UnpackedFloat.unpack]
  simp only [unpackMantissa_packComponents, unpackExponent_packComponents, if_neg notOnes]
  split
  · split <;> rfl
  · rfl

/-- Only what is no number is packed as such. -/
theorem isNaN_pack (u : UnpackedFloat) : (Float.Model.pack u).isNaN = u.isNaN := by
  change (UnpackedFloat.unpack .binary64 (UnpackedFloat.pack .binary64 u)).isNaN = _
  cases u with
  | notANumber => rfl
  | infinity s => cases s <;> rfl
  | zero s => cases s <;> rfl
  | finite s m e positive =>
      rw [UnpackedFloat.pack]
      simp only
      generalize (e + Format.binary64.exponentBias +
        Format.binary64.mantissaBitsWithoutImplicit).toNat = biased
      split
      · cases s <;> rfl
      next small =>
        split
        · refine isNaN_unpack_packComponents (fun same => small ?_) s _
          have numbers := congrArg BitVec.toNat same
          rw [BitVec.toNat_ofNat, show (-1#11).toNat = 2047 from rfl] at numbers
          change 2 ^ 11 ≤ biased + 1
          omega
        · exact isNaN_unpack_packComponents (by decide) s _

/-- Negation turns the sign of a normal double. -/
theorem neg_pack_normal (low : 2 ^ 52 ≤ m) (high : m < 2 ^ 53) (least : -1074 ≤ e)
    (greatest : e ≤ 971) :
    -Float.ofModel (Float.Model.pack (.finite s m e positive)) =
      .ofModel (Float.Model.pack (.finite (-s) m e positive)) := by
  change Float.ofModel (Float.Model.pack (Float.Model.pack (.finite s m e positive)).unpack.neg) = _
  rw [unpack_pack_normal low high least greatest]
  rfl

/-- The exact form of a normal double. -/
theorem ofFloat?_pack_normal (low : 2 ^ 52 ≤ m) (high : m < 2 ^ 53) (least : -1074 ≤ e)
    (greatest : e ≤ 971) :
    Dyadic.ofFloat? (.ofModel (Float.Model.pack (.finite s m e positive))) =
      some ⟨s == .negative, m, e⟩ := by
  have bits : (Float.toBits (.ofModel (Float.Model.pack (.finite s m e positive)))).toNat =
      s.toBitVec.toNat * 2 ^ 63 + (e + 1075).toNat * 2 ^ 52 + m % 2 ^ 52 := by
    change (UnpackedFloat.pack .binary64 (.finite s m e positive)).toNat = _
    rw [pack_normal low high least greatest, toNat_packComponents, BitVec.toNat_ofNat,
      BitVec.toNat_ofNat, Nat.mod_eq_of_lt (by omega : (e + 1075).toNat < 2 ^ 11)]
  have sign := s.toBitVec.isLt
  have exponent : (s.toBitVec.toNat * 2 ^ 63 + (e + 1075).toNat * 2 ^ 52 + m % 2 ^ 52) /
      twoTo 52 % twoTo 11 = (e + 1075).toNat := by
    change _ / 2 ^ 52 % 2 ^ 11 = _
    omega
  have fraction : (s.toBitVec.toNat * 2 ^ 63 + (e + 1075).toNat * 2 ^ 52 + m % 2 ^ 52) % twoTo 52 =
      m % 2 ^ 52 := by
    change _ % 2 ^ 52 = _
    omega
  have first : (s.toBitVec.toNat * 2 ^ 63 + (e + 1075).toNat * 2 ^ 52 + m % 2 ^ 52) / twoTo 63 =
      s.toBitVec.toNat := by
    change _ / 2 ^ 63 = _
    omega
  have mantissa : m % 2 ^ 52 + twoTo 52 = m := by
    change m % 2 ^ 52 + 2 ^ 52 = m
    omega
  have unbiased : ((e + 1075).toNat : Int) - 1075 = e := by omega
  simp only [Dyadic.ofFloat?, bits, exponent, fraction, first, mantissa, unbiased]
  rw [if_neg (by omega), if_neg (by omega)]
  cases s <;> rfl

end Packing

section Rounding

/-- A mantissa that ends in zeros loses nothing when it is shifted by them. -/
theorem shiftRight_zeros (m k : Nat) :
    (⟨m * 2 ^ k, false, false⟩ : ExtendedMantissa) >>> k = ⟨m, false, false⟩ := by
  change k.repeat ExtendedMantissa.shiftRightOne _ = _
  induction k generalizing m with
  | zero => simp [Nat.repeat]
  | succ k ih =>
      have split : m * 2 ^ (k + 1) = 2 * m * 2 ^ k := by
        rw [Nat.pow_succ', ← Nat.mul_assoc, Nat.mul_comm m 2]
      rw [Nat.repeat, split, ih]
      simp [ExtendedMantissa.shiftRightOne]

theorem log2_mul_two_pow {m : Nat} (low : 2 ^ 52 ≤ m) (high : m < 2 ^ 53) (k : Nat) :
    (m * 2 ^ k).log2 = 52 + k := by
  have positive := Nat.two_pow_pos k
  refine (Nat.log2_eq_iff (Nat.mul_pos (by omega) positive).ne').2 ⟨?_, ?_⟩
  · rw [Nat.pow_add]
    exact Nat.mul_le_mul_right _ low
  · rw [show 52 + k + 1 = 53 + k by omega, Nat.pow_add]
    exact Nat.mul_lt_mul_of_pos_right high positive

theorem shiftToTargetExponent_zeros {m : Nat} (low : 2 ^ 52 ≤ m) (high : m < 2 ^ 53)
    (k : Nat) {e : Int} (least : -1074 ≤ e + k) :
    shiftToTargetExponent .binary64 (m * 2 ^ k) e .exact = (⟨m, false, false⟩, e + k) := by
  have target : Format.binary64.targetExponent (totalExponent (m * 2 ^ k) e) - e = k := by
    rw [totalExponent, log2_mul_two_pow low high]
    change max (((52 + k : Nat) : Int) + 1 + e - 53) (-1074) - e = k
    omega
  rw [shiftToTargetExponent, shiftToExponent]
  simp only [target, Int.toNat_natCast, ExtendedMantissa.ofMantissaAndAccuracy, shiftRight_zeros]

/-- Rounding a number that 53 bits can hold only moves zeros into the exponent. -/
theorem roundWithAccuracy_zeros (s : Sign) {m : Nat} (low : 2 ^ 52 ≤ m)
    (high : m < 2 ^ 53) (k : Nat) {e : Int} (least : -1074 ≤ e + k) :
    roundWithAccuracy .binary64 s (m * 2 ^ k) e .exact = .finite s m (e + k) (by omega) := by
  have again := shiftToTargetExponent_zeros low high 0 (e := e + k) (by omega)
  rw [Nat.pow_zero, Nat.mul_one] at again
  have kept : ExtendedMantissa.roundedMantissa ⟨m, false, false⟩ = m := rfl
  rw [roundWithAccuracy, shiftToTargetExponent_zeros low high k least]
  simp only [kept, again]
  rw [dif_neg (by omega)]
  simp

end Rounding

section Whole

/-- A natural number below `2 ^ 53` with its bits moved to the front of the mantissa. -/
theorem shifted_bounds {n : Nat} (positive : 0 < n) (small : n < 2 ^ 53) :
    n.log2 ≤ 52 ∧ 2 ^ 52 ≤ n * 2 ^ (52 - n.log2) ∧ n * 2 ^ (52 - n.log2) < 2 ^ 53 := by
  obtain ⟨low, high⟩ := (Nat.log2_eq_iff positive.ne').1 rfl
  have bits : n.log2 < 53 := (Nat.log2_lt positive.ne').2 small
  refine ⟨by omega, ?_, ?_⟩
  · calc 2 ^ 52 = 2 ^ n.log2 * 2 ^ (52 - n.log2) := by rw [← Nat.pow_add]; congr 1; omega
      _ ≤ n * 2 ^ (52 - n.log2) := Nat.mul_le_mul_right _ low
  · calc n * 2 ^ (52 - n.log2) < 2 ^ (n.log2 + 1) * 2 ^ (52 - n.log2) :=
          Nat.mul_lt_mul_of_pos_right high (Nat.two_pow_pos _)
      _ = 2 ^ 53 := by rw [← Nat.pow_add]; congr 1; omega

/-- A natural number below `2 ^ 53` is rounded to itself. -/
theorem unpackedOfNat_eq {n : Nat} (positive : 0 < n) (small : n < 2 ^ 53) :
    UnpackedFloat.ofNat .binary64 n =
      .finite .positive (n * 2 ^ (52 - n.log2)) (n.log2 - 52)
        (Nat.mul_pos positive (Nat.two_pow_pos _)) := by
  obtain ⟨bits, low, high⟩ := shifted_bounds positive small
  have above : Ord.compare (n : Int) 0 = .gt := Int.compare_eq_gt.2 (by omega)
  have target : (0 - Format.binary64.targetExponent (totalExponent n 0)).toNat = 52 - n.log2 := by
    rw [totalExponent]
    change (0 - max ((n.log2 : Int) + 1 + 0 - 53) (-1074)).toNat = _
    omega
  have rounded := roundWithAccuracy_zeros .positive low high 0 (e := (n.log2 : Int) - 52) (by omega)
  rw [Nat.pow_zero, Nat.mul_one] at rounded
  simp only [UnpackedFloat.ofNat, UnpackedFloat.ofInt, UnpackedFloat.normalize, above,
    UnpackedFloat.round, UnpackedFloat.decreaseExponent, Int.toNat_natCast, target,
    Nat.shiftLeft_eq]
  rw [show (0 : Int) - (52 - n.log2 : Nat) = n.log2 - 52 by omega, rounded]
  simp

/-- The double of a natural number below `2 ^ 53`. -/
theorem ofNat_eq_pack {n : Nat} (positive : 0 < n) (small : n < 2 ^ 53) :
    Float.ofNat n = .ofModel (Float.Model.pack
      (.finite .positive (n * 2 ^ (52 - n.log2)) (n.log2 - 52)
        (Nat.mul_pos positive (Nat.two_pow_pos _)))) := by
  obtain ⟨bits, low, high⟩ := shifted_bounds positive small
  have word : n.toUInt64.toNat = n := Nat.mod_eq_of_lt (by omega : n < 2 ^ 64)
  have one : (Float.ofBits 0x3FF0000000000000).toModel.unpack =
      .finite .positive (2 ^ 52) (-52) (by decide) := rfl
  -- a small number is multiplied by one
  have product : Float.ofNat n = n.toUInt64.toFloat * .ofBits 0x3FF0000000000000 := by
    change Float.ofScientific n false 0 = _
    rw [Float.ofScientific, dif_pos ⟨small, by decide⟩]
    rfl
  have rounded := roundWithAccuracy_zeros .positive low high 52 (e := (n.log2 : Int) - 52 + -52)
    (by omega)
  have factor : n.toUInt64.toFloat.toModel.unpack =
      .finite .positive (n * 2 ^ (52 - n.log2)) (n.log2 - 52)
        (Nat.mul_pos positive (Nat.two_pow_pos _)) := by
    change (Float.Model.pack (UnpackedFloat.ofNat .binary64 n.toUInt64.toNat)).unpack = _
    rw [word, unpackedOfNat_eq positive small, unpack_pack_normal low high (by omega) (by omega)]
  rw [product]
  change Float.ofModel
    (Float.Model.pack (UnpackedFloat.mul .binary64 n.toUInt64.toFloat.toModel.unpack
    (Float.ofBits 0x3FF0000000000000).toModel.unpack)) = _
  rw [factor, one, UnpackedFloat.mul]
  change Float.ofModel (Float.Model.pack (roundWithAccuracy .binary64 .positive _ _ _)) = _
  rw [rounded]
  simp

theorem value_shifted {n : Nat} (bits : n.log2 ≤ 52) :
    ((n * 2 ^ (52 - n.log2) : Nat) : ℚ) * 2 ^ ((n.log2 : Int) - 52) = n := by
  have inverse : ((n.log2 : Int) - 52) = -((52 - n.log2 : Nat) : Int) := by omega
  rw [inverse, zpow_neg, zpow_natCast]
  push_cast
  rw [mul_assoc, mul_inv_cancel₀ (by positivity), mul_one]

/-- A natural number up to `2 ^ 53` is the value of its double, and its negative that of the negated
one. -/
theorem hasValue_ofNat {n : Nat} (small : n ≤ 2 ^ 53) (negative : Bool) :
    HasValue (if negative then -Float.ofNat n else Float.ofNat n) (if negative then -n else n) := by
  rcases Nat.eq_zero_or_pos n with rfl | positive
  · refine ⟨⟨negative, 0, -1074⟩, ?_, by cases negative <;> simp [Dyadic.value]⟩
    revert negative
    decide +kernel
  rcases Nat.lt_or_eq_of_le small with below | rfl
  · obtain ⟨bits, low, high⟩ := shifted_bounds positive below
    refine ⟨⟨negative, n * 2 ^ (52 - n.log2), n.log2 - 52⟩, ?_, ?_⟩
    · rw [ofNat_eq_pack positive below]
      cases negative with
      | false => exact ofFloat?_pack_normal low high (by omega) (by omega)
      | true =>
          rw [if_pos rfl, neg_pack_normal low high (by omega) (by omega)]
          exact ofFloat?_pack_normal low high (by omega) (by omega)
    · rw [Dyadic.value, mul_assoc, value_shifted bits]
      cases negative <;> simp
  · refine ⟨⟨negative, 2 ^ 52, 1⟩, ?_, by cases negative <;> norm_num [Dyadic.value]⟩
    revert negative
    decide +kernel

/-- Negation makes no number of what is none, and the other way round. -/
theorem isNaN_neg (x : Float) : (-x).isNaN = x.isNaN := by
  change (Float.Model.pack x.toModel.unpack.neg).isNaN = x.toModel.unpack.isNaN
  rw [isNaN_pack]
  cases x.toModel.unpack <;> rfl

theorem isNaN_roundWithAccuracy (s : Sign) (m : Nat) (e : Int) (a : Accuracy) :
    (roundWithAccuracy .binary64 s m e a).isNaN = false := by
  rw [roundWithAccuracy]
  simp only
  split <;> rfl

/-- The double of a natural number is a number. -/
theorem isNaN_ofNat (n : Nat) : (Float.ofNat n).isNaN = false := by
  by_cases small : n < 2 ^ 53
  · rcases Nat.eq_zero_or_pos n with rfl | positive
    · decide +kernel
    · rw [ofNat_eq_pack positive small]
      exact isNaN_pack _
  · have large : Float.ofNat n = .ofModel (Float.Model.ofScientific n 0) := by
      change Float.ofScientific n false 0 = _
      rw [Float.ofScientific, dif_neg fun both => small both.1]
      rfl
    rw [large]
    change (Float.Model.pack (UnpackedFloat.ofScientific .binary64 n 0)).isNaN = false
    have notTiny : ¬(0 : Int) < -((2 ^ Format.binary64.exponentBits : Int) + n.log2) := by
      change ¬(0 : Int) < -((2 ^ 11 : Int) + n.log2)
      omega
    rw [isNaN_pack, UnpackedFloat.ofScientific, dif_neg (by omega), if_neg (by decide),
      if_neg notTiny, if_pos (Int.le_refl 0), UnpackedFloat.mul]
    exact isNaN_roundWithAccuracy _ _ _ _

end Whole

end Number

end AddonAudit
