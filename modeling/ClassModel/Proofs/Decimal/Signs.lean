import ClassModel.Proofs.Decimal.Exact

/-! Numbers that are not below zero.

However sums, products and quotients of such numbers are rounded, and even when they are too large to
be finite, they are not below zero either. What is not a number makes every result not a number.
-/

set_option autoImplicit false

namespace ClassModel.Decimal

open Float.Model Float.Model.UnpackedFloat

/-! ## Signs -/

/-- A zero of either sign, or what is positive, finite or not. -/
inductive NotBelowZero : UnpackedFloat → Prop where
  | zero (sign : Sign) : NotBelowZero (.zero sign)
  | finite (significand : ℕ) (exponent : ℤ) (positive : 0 < significand) :
      NotBelowZero (.finite .positive significand exponent positive)
  | infinity : NotBelowZero (.infinity .positive)

theorem HasValue.notBelowZero {number : UnpackedFloat} {value : ℚ} (exact : HasValue number value) :
    NotBelowZero number := by
  cases exact with
  | zero => exact .zero .positive
  | finite => exact .finite _ _ _

theorem notBelowZero_roundWithAccuracy (significand : ℕ) (exponent : ℤ) (accuracy : Accuracy) :
    NotBelowZero (roundWithAccuracy Format.binary64 .positive significand exponent accuracy) := by
  unfold roundWithAccuracy
  dsimp only
  split
  · exact .zero .positive
  · exact .finite _ _ _

theorem notBelowZero_normalize (significand : ℕ) (exponent : ℤ) :
    NotBelowZero (UnpackedFloat.normalize Format.binary64 significand exponent .positive) := by
  obtain ⟨_, _, exact⟩ := normalize_hasValue significand exponent
  exact exact.notBelowZero

namespace NotBelowZero

variable {first second : UnpackedFloat}

theorem isNaN_eq_false (nonneg : NotBelowZero first) : first.isNaN = false := by
  cases nonneg <;> rfl

theorem zero_le_rank (nonneg : NotBelowZero first) : toLex (0, toLex (0, 0)) ≤ rank first := by
  cases nonneg <;> simp [rank, Prod.Lex.toLex_le_toLex]

theorem of_zero_le_rank (number : first.isNaN = false)
    (atLeast : toLex (0, toLex (0, 0)) ≤ rank first) : NotBelowZero first := by
  cases first with
  | notANumber => cases number
  | zero => exact .zero _
  | infinity sign =>
    cases sign with
    | negative => simp [rank, Prod.Lex.toLex_le_toLex] at atLeast
    | positive => exact .infinity
  | finite sign =>
    cases sign with
    | negative => simp [rank, Prod.Lex.toLex_le_toLex] at atLeast
    | positive => exact .finite _ _ _

-- The sign is stored apart, and only infinity has the exponent that it shares with what is not a
-- number.
theorem unpack_packComponents (exponent : BitVec 11) (significand : BitVec 52)
    (finite : exponent ≠ -1#11) :
    NotBelowZero (UnpackedFloat.unpack Format.binary64
      (packComponents Format.binary64 .positive exponent significand)) := by
  simp only [UnpackedFloat.unpack, unpackExponent_packComponents, unpackMantissa_packComponents,
    unpackSign_packComponents, Sign.ofBitVec_toBitVec]
  rw [if_neg finite]
  split
  · split
    · exact .zero .positive
    · exact .finite _ _ _
  · exact .finite _ _ _

theorem pack (nonneg : NotBelowZero first) : NotBelowZero (Float.Model.pack first).unpack := by
  have infinite : (Float.Model.pack (.infinity .positive)).unpack = .infinity .positive := rfl
  cases nonneg with
  | zero sign => cases sign <;> exact .zero _
  | infinity => exact infinite ▸ .infinity
  | finite significand exponent positive =>
    show NotBelowZero (UnpackedFloat.unpack Format.binary64
      (UnpackedFloat.pack Format.binary64 (.finite .positive significand exponent positive)))
    simp only [UnpackedFloat.pack]
    split
    · show NotBelowZero (Float.Model.pack (.infinity .positive)).unpack
      exact infinite ▸ .infinity
    · rename_i fits
      split
      · refine unpack_packComponents _ _ fun same => fits ?_
        have := congrArg BitVec.toNat same
        simp at this
        simp
        omega
      · exact unpack_packComponents _ _ (by decide)

theorem add (nonneg : NotBelowZero first) (other : NotBelowZero second) :
    NotBelowZero (UnpackedFloat.add Format.binary64 first second) := by
  cases nonneg with
  | zero sign =>
    cases other with
    | zero otherSign => cases sign <;> cases otherSign <;> exact .zero _
    | finite => exact .finite _ _ _
    | infinity => exact .infinity
  | infinity => cases other <;> exact .infinity
  | finite significand exponent =>
    cases other with
    | zero => exact .finite _ _ _
    | infinity => exact .infinity
    | finite otherSignificand otherExponent => exact notBelowZero_normalize (_ + _) _

variable {significand : ℕ} {exponent : ℤ} {positive : 0 < significand}

theorem mul_finite (nonneg : NotBelowZero first) : NotBelowZero
    (UnpackedFloat.mul Format.binary64 first (.finite .positive significand exponent positive)) := by
  cases nonneg with
  | zero => exact .zero _
  | finite => exact notBelowZero_roundWithAccuracy _ _ _
  | infinity => exact .infinity

theorem div_finite (nonneg : NotBelowZero first) : NotBelowZero
    (UnpackedFloat.div Format.binary64 first (.finite .positive significand exponent positive)) := by
  cases nonneg with
  | zero => exact .zero _
  | finite => exact notBelowZero_roundWithAccuracy _ _ _
  | infinity => exact .infinity

end NotBelowZero

/-! ## Numbers -/

def Nonneg (number : Float) : Prop := NotBelowZero number.toModel.unpack

/-- A number one can multiply with and divide by without a limit case. -/
def PositiveFinite (number : Float) : Prop := ∃ significand exponent positive,
  number.toModel.unpack = .finite .positive significand exponent positive

theorem Denotes.toNonneg {number : Float} {value : ℚ} (exact : Denotes number value) :
    Nonneg number := HasValue.notBelowZero exact

namespace Nonneg

variable {first second : Float}

theorem isNaN_eq_false (nonneg : Nonneg first) : first.isNaN = false :=
  NotBelowZero.isNaN_eq_false nonneg

theorem zero_le (nonneg : Nonneg first) : 0.0 ≤ first := by
  rw [le_iff_rank denotes_zero.isNaN_eq_false nonneg.isNaN_eq_false]
  exact NotBelowZero.zero_le_rank nonneg

theorem of_zero_le (atLeast : 0.0 ≤ first) : Nonneg first := by
  have number := (numbers_of_le atLeast).2
  rw [le_iff_rank denotes_zero.isNaN_eq_false number] at atLeast
  exact NotBelowZero.of_zero_le_rank number atLeast

theorem add (nonneg : Nonneg first) (other : Nonneg second) : Nonneg (first + second) :=
  (NotBelowZero.add nonneg other).pack

theorem mul (nonneg : Nonneg first) (factor : PositiveFinite second) : Nonneg (first * second) := by
  obtain ⟨significand, exponent, positive, found⟩ := factor
  refine NotBelowZero.pack ?_
  rw [found]
  exact NotBelowZero.mul_finite nonneg

theorem div (nonneg : Nonneg first) (divisor : PositiveFinite second) :
    Nonneg (first / second) := by
  obtain ⟨significand, exponent, positive, found⟩ := divisor
  refine NotBelowZero.pack ?_
  rw [found]
  exact NotBelowZero.div_finite nonneg

end Nonneg

/-! ## What is not a number -/

section

variable {first second : Float}

theorem unpack_of_isNaN (undefined : first.isNaN = true) : first.toModel.unpack = .notANumber :=
  UnpackedFloat.isNaN_iff.mp undefined

theorem isNaN_pack_notANumber : (Float.Model.pack .notANumber).isNaN = true := by
  decide +kernel

theorem isNaN_add_left (undefined : first.isNaN = true) : (first + second).isNaN = true := by
  show (Float.Model.pack (UnpackedFloat.add Format.binary64 first.toModel.unpack
    second.toModel.unpack)).isNaN = true
  rw [unpack_of_isNaN undefined]
  exact isNaN_pack_notANumber

theorem isNaN_add_right (undefined : second.isNaN = true) : (first + second).isNaN = true := by
  show (Float.Model.pack (UnpackedFloat.add Format.binary64 first.toModel.unpack
    second.toModel.unpack)).isNaN = true
  rw [unpack_of_isNaN undefined]
  cases first.toModel.unpack <;> exact isNaN_pack_notANumber

theorem isNaN_mul_left (undefined : first.isNaN = true) : (first * second).isNaN = true := by
  show (Float.Model.pack (UnpackedFloat.mul Format.binary64 first.toModel.unpack
    second.toModel.unpack)).isNaN = true
  rw [unpack_of_isNaN undefined]
  exact isNaN_pack_notANumber

theorem isNaN_div_left (undefined : first.isNaN = true) : (first / second).isNaN = true := by
  show (Float.Model.pack (UnpackedFloat.div Format.binary64 first.toModel.unpack
    second.toModel.unpack)).isNaN = true
  rw [unpack_of_isNaN undefined]
  exact isNaN_pack_notANumber

end

/-! ## Rounding to whole numbers -/

/-- What the bits of a number say is what arithmetic works with. -/
def Binary.ofUnpacked : UnpackedFloat → Binary
  | .notANumber => .nan
  | .infinity sign => .infinite (sign == .negative)
  | .zero sign => .finite (sign == .negative) 0 (-1074)
  | .finite sign significand exponent _ => .finite (sign == .negative) significand exponent

section

variable (bits : BitVec Format.binary64.numBits)

theorem toNat_unpackExponent :
    (unpackExponent bits).toNat = bits.toNat / Nat.pow 2 52 % Nat.pow 2 11 := by
  simp [unpackExponent, Nat.shiftRight_eq_div_pow]

theorem toNat_unpackMantissa : (unpackMantissa bits).toNat = bits.toNat % Nat.pow 2 52 := by
  simp [unpackMantissa]

theorem ofBitVec_unpackSign :
    (Sign.ofBitVec (unpackSign bits) == .negative) = (bits.toNat / Nat.pow 2 63 == 1) := by
  have size : bits.toNat < 2 ^ 64 := bits.isLt
  have bit : (unpackSign bits).toNat = bits.toNat / Nat.pow 2 63 := by
    simp [unpackSign, Nat.shiftRight_eq_div_pow]
    omega
  rw [← bit]
  generalize unpackSign bits = sign
  revert sign
  decide

theorem Binary.ofBits_eq :
    Binary.ofBits bits.toNat = Binary.ofUnpacked (UnpackedFloat.unpack Format.binary64 bits) := by
  have lastIff : unpackExponent bits = -1#11 ↔ (unpackExponent bits).toNat = 2047 :=
    BitVec.toNat_inj.symm
  have leastIff : unpackExponent bits = 0#11 ↔ (unpackExponent bits).toNat = 0 :=
    BitVec.toNat_inj.symm
  have noneIff : unpackMantissa bits = 0#52 ↔ (unpackMantissa bits).toNat = 0 :=
    BitVec.toNat_inj.symm
  simp only [Binary.ofBits, ← ofBitVec_unpackSign, ← toNat_unpackExponent, ← toNat_unpackMantissa]
  simp only [UnpackedFloat.unpack]
  by_cases last : (unpackExponent bits).toNat = 2047
  · rw [if_pos last, if_pos (lastIff.mpr last)]
    by_cases none : (unpackMantissa bits).toNat = 0
    · rw [if_pos none, if_pos (noneIff.mpr none)]
      rfl
    · rw [if_neg none, if_neg (mt noneIff.mp none)]
      rfl
  · rw [if_neg last, if_neg (mt lastIff.mp last)]
    by_cases least : (unpackExponent bits).toNat = 0
    · rw [if_pos least, if_pos (leastIff.mpr least)]
      by_cases none : (unpackMantissa bits).toNat = 0
      · rw [dif_pos (noneIff.mpr none), none]
        rfl
      · rw [dif_neg (mt noneIff.mp none), leastIff.mpr least]
        rfl
    · rw [if_neg least, if_neg (mt leastIff.mp least)]
      simp only [Binary.ofUnpacked, toNat_one_append]
      rfl

end

/-- The bits say what arithmetic works with. -/
theorem Binary.ofFloat_eq (number : Float) :
    Binary.ofFloat number = Binary.ofUnpacked number.toModel.unpack :=
  Binary.ofBits_eq number.toModel.toBits.toBitVec

namespace Nonneg

theorem ofNat (n : ℕ) : Nonneg (Float.ofNat n) := by
  show Nonneg (Float.ofScientific n false 0)
  unfold Float.ofScientific
  split
  · have power : Float.exactlyRepresentablePowersOfTen[0] = 1.0 := by decide +kernel
    simp only [power, Bool.false_eq_true, if_false]
    exact mul (notBelowZero_normalize n.toUInt64.toNat 0).pack ⟨_, _, _, rfl⟩
  · refine NotBelowZero.pack ?_
    unfold UnpackedFloat.ofScientific
    split
    · exact .zero .positive
    · rw [if_neg (by decide), if_neg (by simp), if_pos (by decide)]
      exact NotBelowZero.mul_finite (.finite _ _ _)

-- A number of negative sign has its result negated. Of those not below zero only a zero is one.
theorem roundHalfAway {number : Float} (nonneg : Nonneg number) :
    Nonneg (Decimal.roundHalfAway number) := by
  have whole : (Quotient.ofScaled 0 (-1074)).round .awayFromZero = 0 := by decide +kernel
  have same := nonneg
  unfold Decimal.roundHalfAway
  rw [Binary.ofFloat_eq]
  rw [Nonneg] at same
  generalize number.toModel.unpack = unpacked at same
  cases same with
  | zero sign =>
    simp only [Binary.ofUnpacked, whole]
    rw [if_neg (by decide)]
    cases sign
    · exact NotBelowZero.zero .negative
    · exact NotBelowZero.zero .positive
  | infinity => exact nonneg
  | finite significand exponent =>
    simp only [Binary.ofUnpacked]
    split
    · exact nonneg
    · exact ofNat _

theorem roundThousandths {number : Float} (nonneg : Nonneg number) :
    Nonneg (Decimal.roundThousandths number) :=
  (nonneg.mul ⟨_, _, _, rfl⟩).roundHalfAway.div ⟨_, _, _, rfl⟩

end Nonneg

theorem isNaN_roundThousandths {number : Float} (undefined : number.isNaN = true) :
    (roundThousandths number).isNaN = true := by
  have product : (number * 1000.0).isNaN = true := isNaN_mul_left undefined
  refine isNaN_div_left ?_
  unfold roundHalfAway
  rw [Binary.ofFloat_eq, unpack_of_isNaN product]
  exact product

end ClassModel.Decimal
