import ClassModel.Proofs.Decimal.Rounding
import Mathlib

/-! Significands rounded to their length.

A significand that is too long loses its last places. What they held decides whether the rest is
taken up by one, so that the result is the nearest significand, and its value the rounded value.
-/

set_option autoImplicit false

namespace ClassModel.Decimal

open Float.Model Float.Model.UnpackedFloat

/-! ## Rounding a significand -/

/-- A significand in larger units, and what is left of it: the first place of the rest, and whether
there is anything behind it. -/
structure Truncates (short : ExtendedMantissa) (significand unit rest : ℕ) : Prop where
  split : significand = short.mantissa * unit + rest
  less : rest < unit
  first : short.roundBit = true ↔ unit ≤ 2 * rest
  behind : short.stickyBit = true ↔ 2 * rest ≠ if short.roundBit then unit else 0

namespace Truncates

variable {short : ExtendedMantissa} {significand unit rest : ℕ}

theorem anything_iff (truncated : Truncates short significand unit rest) :
    (short.roundBit || short.stickyBit) = true ↔ rest ≠ 0 := by
  obtain ⟨-, less, first, behind⟩ := truncated
  cases bit : short.roundBit with
  | false =>
    rw [bit] at behind
    simpa using behind
  | true =>
    have := first.mp bit
    simp only [Bool.true_or, true_iff]
    omega

-- Halving moves the last place of the significand to the front of the rest.
theorem halve (truncated : Truncates short significand unit rest) :
    Truncates short.shiftRightOne significand (2 * unit)
      (short.mantissa % 2 * unit + rest) := by
  have anything := truncated.anything_iff
  obtain ⟨split, less, -, -⟩ := truncated
  rcases Nat.even_or_odd' short.mantissa with ⟨half, even | odd⟩
  · have place : short.mantissa % 2 = 0 := by omega
    have whole : short.mantissa / 2 = half := by omega
    simp only [ExtendedMantissa.shiftRightOne, place, whole]
    refine ⟨by rw [split, even]; ring, by omega, by simp; omega, ?_⟩
    simpa using anything
  · have place : short.mantissa % 2 = 1 := by omega
    have whole : short.mantissa / 2 = half := by omega
    simp only [ExtendedMantissa.shiftRightOne, place, whole]
    refine ⟨by rw [split, odd]; ring, by omega, by simp, ?_⟩
    rw [anything]
    simp

theorem shift (significand places : ℕ) : ∃ rest,
    Truncates (ExtendedMantissa.mk significand false false >>> places) significand (2 ^ places)
      rest := by
  induction places with
  | zero =>
    have unshifted : ExtendedMantissa.mk significand false false >>> 0 =
      ExtendedMantissa.mk significand false false := rfl
    rw [unshifted]
    exact ⟨0, by simp, by simp, by simp, by simp⟩
  | succ places ih =>
    obtain ⟨rest, truncated⟩ := ih
    rw [Nat.pow_succ, Nat.mul_comm]
    exact ⟨_, truncated.halve⟩

/-- The rounded significand is the nearest one, and an even one between two that are equally
near. -/
theorem nearest (truncated : Truncates short significand unit rest) :
    2 * (short.roundedMantissa * unit) ≤ 2 * significand + unit ∧
      2 * significand ≤ 2 * (short.roundedMantissa * unit) + unit ∧
      (2 * (short.roundedMantissa * unit) = 2 * significand + unit ∨
        2 * significand = 2 * (short.roundedMantissa * unit) + unit →
        Even short.roundedMantissa) := by
  obtain ⟨split, less, first, behind⟩ := truncated
  obtain ⟨whole, roundBit, stickyBit⟩ := short
  simp only at split first behind
  cases roundBit with
  | false =>
    -- Nothing or less than half a unit is left.
    have down : (ExtendedMantissa.mk whole false stickyBit).roundedMantissa = whole := by
      cases stickyBit <;> rfl
    rw [down]
    simp only [Bool.false_eq_true, false_iff, not_le] at first
    omega
  | true =>
    simp only [true_iff] at first
    cases stickyBit with
    | false =>
      -- Half a unit is left.
      have tie : (ExtendedMantissa.mk whole true false).roundedMantissa = whole + whole % 2 := rfl
      rw [tie]
      simp only [Bool.false_eq_true, if_true, false_iff, not_not] at behind
      rcases Nat.mod_two_eq_zero_or_one whole with even | odd
      · rw [even, Nat.add_zero]
        exact ⟨by omega, by omega, fun _ => Nat.even_iff.mpr even⟩
      · have next : Even (whole + 1) := Nat.even_iff.mpr (by omega)
        rw [odd]
        refine ⟨?_, ?_, fun _ => next⟩
        · rw [Nat.add_mul]
          omega
        · rw [Nat.add_mul]
          omega
    | true =>
      -- More than half a unit is left.
      have up : (ExtendedMantissa.mk whole true true).roundedMantissa = whole + 1 := rfl
      rw [up, Nat.add_mul]
      simp only [if_true, true_iff] at behind
      omega

theorem roundedMantissa_le (short : ExtendedMantissa) :
    short.roundedMantissa ≤ short.mantissa + 1 := by
  obtain ⟨whole, roundBit, stickyBit⟩ := short
  cases roundBit <;> cases stickyBit <;>
    simp [ExtendedMantissa.roundedMantissa, ExtendedMantissa.accuracy,
      Accuracy.roundToNearestEven]
  omega

end Truncates

/-- The place a number is rounded at: the last one that a full significand has. -/
def roundingPlace (significand : ℕ) (exponent : ℤ) : ℤ :=
  Format.binary64.targetExponent (totalExponent significand exponent)

theorem roundingPlace_eq (significand : ℕ) (exponent : ℤ) :
    roundingPlace significand exponent = max (significand.log2 + exponent - 52) (-1074) := by
  simp only [roundingPlace, Format.targetExponent, totalExponent, Format.mantissaBits,
    Format.minExponent]
  norm_num
  omega

/-- The significand with all places up to that of rounding taken off. -/
def shortened (significand : ℕ) (exponent : ℤ) : ExtendedMantissa :=
  ExtendedMantissa.mk significand false false >>>
    (roundingPlace significand exponent - exponent).toNat

section

variable {significand : ℕ} {exponent : ℤ}

theorem truncates_shortened (fits : exponent ≤ roundingPlace significand exponent) :
    ∃ (places rest : ℕ), roundingPlace significand exponent = exponent + places ∧
      Truncates (shortened significand exponent) significand (2 ^ places) rest := by
  obtain ⟨rest, truncated⟩ :=
    Truncates.shift significand (roundingPlace significand exponent - exponent).toNat
  exact ⟨_, rest, by omega, truncated⟩

/-- The shortened significand has no more places than there are, and it is full or rounded at the
least place. -/
theorem shortened_fits {places rest : ℕ} (positive : 0 < significand)
    (place : roundingPlace significand exponent = exponent + places)
    (truncated : Truncates (shortened significand exponent) significand (2 ^ places) rest) :
    (shortened significand exponent).mantissa < 2 ^ 53 ∧
      (roundingPlace significand exponent = -1074 ∨ 2 ^ 52 * 2 ^ places ≤ significand) := by
  have chosen := roundingPlace_eq significand exponent
  constructor
  · have long : significand < 2 ^ 53 * 2 ^ places := by
      rw [← Nat.pow_add]
      exact Nat.lt_log2_self.trans_le (Nat.pow_le_pow_right (by norm_num) (by omega))
    have kept : (shortened significand exponent).mantissa * 2 ^ places ≤ significand := by
      have := truncated.split
      omega
    exact Nat.lt_of_mul_lt_mul_right (kept.trans_lt long)
  · refine Classical.or_iff_not_imp_left.mpr fun higher => ?_
    have length : significand.log2 = 52 + places := by omega
    rw [← Nat.pow_add, ← length]
    exact Nat.log2_self_le positive.ne'

theorem roundsAt_shortened (positive : 0 < significand)
    (fits : exponent ≤ roundingPlace significand exponent) :
    RoundsAt (significand * 2 ^ exponent) (shortened significand exponent).roundedMantissa
      (roundingPlace significand exponent) := by
  obtain ⟨places, rest, place, truncated⟩ := truncates_shortened fits
  obtain ⟨short, full⟩ := shortened_fits positive place truncated
  have unit := two_zpow_pos exponent
  have scale : (2 : ℚ) ^ roundingPlace significand exponent =
      ((2 ^ places : ℕ) : ℚ) * 2 ^ exponent := by
    rw [place, zpow_add₀ two_ne_zero, zpow_natCast, mul_comm]
    push_cast
    ring
  obtain ⟨upper, lower, tie⟩ := truncated.nearest
  have most := Truncates.roundedMantissa_le (shortened significand exponent)
  generalize (shortened significand exponent).roundedMantissa = rounded at *
  -- The error in units of the exponent is a difference of natural numbers.
  have error :
      |(rounded : ℚ) * 2 ^ roundingPlace significand exponent - significand * 2 ^ exponent| =
        |((rounded * 2 ^ places : ℕ) : ℚ) - significand| * 2 ^ exponent := by
    rw [scale, ← abs_of_pos unit, ← abs_mul, abs_of_pos unit]
    congr 1
    push_cast
    ring
  have half : (2 : ℚ) ^ roundingPlace significand exponent / 2 =
      ((2 ^ places : ℕ) : ℚ) / 2 * 2 ^ exponent := by
    rw [scale]
    ring
  generalize rounded * 2 ^ places = value at *
  generalize 2 ^ places = units at *
  have upper : (2 : ℚ) * value ≤ 2 * significand + units := by exact_mod_cast upper
  have lower : (2 : ℚ) * significand ≤ 2 * value + units := by exact_mod_cast lower
  exact {
    least := by have := roundingPlace_eq significand exponent; omega
    bound := by omega
    near := by
      rw [error, half]
      refine mul_le_mul_of_nonneg_right (abs_le.mpr ⟨?_, ?_⟩) unit.le <;> linarith
    even := by
      rw [error, half]
      intro same
      have same := mul_right_cancel₀ unit.ne' same
      refine tie ?_
      rcases abs_eq (by positivity) |>.mp same with above | below
      · left
        have : (2 : ℚ) * value = 2 * significand + units := by linarith
        exact_mod_cast this
      · right
        have : (2 : ℚ) * significand = 2 * value + units := by linarith
        exact_mod_cast this
    full := by
      refine full.imp_right fun filled => ?_
      have filled : (2 : ℚ) ^ 52 * units ≤ significand := by exact_mod_cast filled
      rw [scale, ← mul_assoc]
      exact mul_le_mul_of_nonneg_right filled unit.le }

end

/-! ## Exact values -/

/-- The significand and the exponent by which a number is written: the significand is full, or the
exponent is the least there is. -/
structure Canonical (significand : ℕ) (exponent : ℤ) : Prop where
  positive : 0 < significand
  bound : significand < 2 ^ 53
  least : -1074 ≤ exponent
  full : 2 ^ 52 ≤ significand ∨ exponent = -1074

/-- The exact value of a number that is not negative. -/
inductive HasValue : UnpackedFloat → ℚ → Prop where
  | zero : HasValue (.zero .positive) 0
  | finite {significand : ℕ} {exponent : ℤ} (canonical : Canonical significand exponent) :
      HasValue (.finite .positive significand exponent canonical.positive)
        (significand * 2 ^ exponent)

theorem shiftToTargetExponent_eq (significand : ℕ) (exponent : ℤ) :
    shiftToTargetExponent Format.binary64 significand exponent .exact =
      (shortened significand exponent,
        exponent + (roundingPlace significand exponent - exponent).toNat) := rfl

theorem shift_of_small {rounded : ℕ} {place : ℤ} (small : rounded < 2 ^ 53)
    (least : -1074 ≤ place) :
    shiftToTargetExponent Format.binary64 rounded place .exact =
      (⟨rounded, false, false⟩, place) := by
  have chosen := roundingPlace_eq rounded place
  have length : rounded.log2 ≤ 52 := by
    rcases rounded.eq_zero_or_pos with rfl | positive
    · simp
    · have := (Nat.log2_lt positive.ne').mpr small
      omega
  have unmoved : (roundingPlace rounded place - place).toNat = 0 := by omega
  rw [shiftToTargetExponent_eq, shortened, unmoved]
  simp [HShiftRight.hShiftRight, Nat.repeat]

theorem shift_of_carry {place : ℤ} (least : -1074 ≤ place) :
    shiftToTargetExponent Format.binary64 (2 ^ 53) place .exact =
      (⟨2 ^ 52, false, false⟩, place + 1) := by
  have chosen := roundingPlace_eq (2 ^ 53) place
  rw [Nat.log2_two_pow] at chosen
  have moved : (roundingPlace (2 ^ 53) place - place).toNat = 1 := by omega
  rw [shiftToTargetExponent_eq, shortened, moved]
  rfl

/-- A significand that rounding has carried over its length is moved by one place. -/
theorem hasValue_carried {rounded : ℕ} {place : ℤ} (bound : rounded ≤ 2 ^ 53)
    (least : -1074 ≤ place) (full : place = -1074 ∨ 2 ^ 52 ≤ rounded) :
    let carried := shiftToTargetExponent Format.binary64 rounded place .exact
    HasValue (if h : carried.1.mantissa = 0 then .zero .positive
      else .finite .positive carried.1.mantissa carried.2 (Nat.pos_of_ne_zero h))
      (rounded * 2 ^ place) := by
  rcases bound.lt_or_eq with small | rfl
  · rw [shift_of_small small least]
    intro carried
    split
    case isTrue nothing =>
      have : rounded = 0 := nothing
      rw [this, Nat.cast_zero, zero_mul]
      exact .zero
    case isFalse something =>
      exact .finite ⟨Nat.pos_of_ne_zero something, small, least, full.symm⟩
  · rw [shift_of_carry least]
    intro carried
    have same : ((2 ^ 53 : ℕ) : ℚ) * 2 ^ place = ((2 ^ 52 : ℕ) : ℚ) * 2 ^ (place + 1) := by
      rw [zpow_add_one₀ two_ne_zero]
      push_cast
      ring
    have higher : -1074 ≤ place + 1 := by omega
    rw [same, dif_neg (show 2 ^ 52 ≠ 0 by decide)]
    exact .finite ⟨by decide, by decide, higher, .inl le_rfl⟩

section

variable {significand : ℕ} {exponent : ℤ}

theorem roundWithAccuracy_hasValue (positive : 0 < significand)
    (fits : exponent ≤ roundingPlace significand exponent) :
    ∃ rounded, RoundsTo (significand * 2 ^ exponent) rounded ∧
      HasValue (roundWithAccuracy Format.binary64 .positive significand exponent .exact)
        rounded := by
  have rounds := roundsAt_shortened positive fits
  refine ⟨_, ⟨_, _, rounds, rfl⟩, ?_⟩
  have shifted : shiftToTargetExponent Format.binary64 significand exponent .exact =
      (shortened significand exponent, roundingPlace significand exponent) := by
    rw [shiftToTargetExponent_eq]
    congr 1
    omega
  rw [roundWithAccuracy, shifted]
  exact hasValue_carried rounds.bound rounds.least rounds.filled

theorem log2_mul_two_pow (positive : 0 < significand) (places : ℕ) :
    (significand * 2 ^ places).log2 = significand.log2 + places := by
  have filled : 0 < significand * 2 ^ places := Nat.mul_pos positive (Nat.two_pow_pos places)
  refine (Nat.log2_eq_iff filled.ne').mpr ⟨?_, ?_⟩
  · rw [Nat.pow_add]
    exact Nat.mul_le_mul_right _ (Nat.log2_self_le positive.ne')
  · rw [Nat.add_right_comm, Nat.pow_add]
    exact Nat.mul_lt_mul_of_pos_right Nat.lt_log2_self (Nat.two_pow_pos places)

/-- Any number can be rounded, with as many places as that takes. -/
theorem round_hasValue (positive : 0 < significand) :
    ∃ rounded, RoundsTo (significand * 2 ^ exponent) rounded ∧
      HasValue (UnpackedFloat.round Format.binary64 .positive significand exponent) rounded := by
  have place := roundingPlace_eq significand exponent
  generalize more : (exponent - roundingPlace significand exponent).toNat = places
  -- The same number with more places, so that it is rounded at the same place.
  have written : decreaseExponent significand exponent (roundingPlace significand exponent) =
      (significand * 2 ^ places, exponent - places) := by
    simp only [decreaseExponent, more, Nat.shiftLeft_eq]
  have value : ((significand * 2 ^ places : ℕ) : ℚ) * 2 ^ (exponent - places) =
      significand * 2 ^ exponent := by
    rw [zpow_sub₀ two_ne_zero, zpow_natCast]
    push_cast
    rw [mul_assoc, mul_div_cancel₀ _ (pow_ne_zero _ two_ne_zero)]
  have samePlace : roundingPlace (significand * 2 ^ places) (exponent - places) =
      roundingPlace significand exponent := by
    rw [roundingPlace_eq, roundingPlace_eq, log2_mul_two_pow positive]
    congr 1
    push_cast
    ring
  have rounds := @roundWithAccuracy_hasValue (significand * 2 ^ places) (exponent - places)
    (by positivity) (by rw [samePlace]; omega)
  rw [value] at rounds
  unfold UnpackedFloat.round
  show ∃ rounded, _ ∧ HasValue (match decreaseExponent significand exponent
    (roundingPlace significand exponent) with
    | (mantissa, exponent) => roundWithAccuracy Format.binary64 .positive mantissa exponent .exact) _
  rw [written]
  exact rounds

end

end ClassModel.Decimal
