import ClassModel.Proofs.Decimal.Ordering
import ClassModel.Proofs.Decimal.Significands

/-! Floating-point arithmetic as rounded exact arithmetic.

A number that is not negative denotes an exact value, and no other number denotes the same one.
Sums, products and differences of such numbers denote the exact results rounded, and comparing the
numbers is comparing the values.
-/

set_option autoImplicit false

namespace ClassModel.Decimal

open Float.Model Float.Model.UnpackedFloat

/-! ## How numbers are stored -/

theorem toNat_one_append (significand : BitVec 52) :
    (1#1 ++ significand).toNat = 2 ^ 52 + significand.toNat := by
  have joined := Nat.two_pow_add_eq_or_of_lt significand.isLt 1
  rw [BitVec.toNat_append, Nat.shiftLeft_eq, BitVec.toNat_ofNat]
  rw [Nat.mul_one] at joined
  simpa using joined.symm

/-- What is read from a store is in canonical form: a number of the least exponent has all its places
stored, and any other one is full with the first place that its store lacks. -/
theorem canonical_of_unpack {bits : BitVec Format.binary64.numBits} {sign : Sign} {significand : ℕ}
    {exponent : ℤ} {positive : 0 < significand}
    (found : UnpackedFloat.unpack Format.binary64 bits =
      .finite sign significand exponent positive) : Canonical significand exponent := by
  have bound : (unpackMantissa bits).toNat < 2 ^ 52 := (unpackMantissa bits).isLt
  simp only [UnpackedFloat.unpack] at found
  split at found
  · split at found <;> cases found
  · split at found
    · rename_i lowest
      split at found
      · cases found
      · injection found with _ sameSignificand sameExponent
        have least : exponent = -1074 := by
          rw [← sameExponent, lowest]
          rfl
        exact ⟨positive, by omega, least.ge, .inr least⟩
    · rename_i higher
      injection found with _ sameSignificand sameExponent
      have nonzero : (unpackExponent bits).toNat ≠ 0 := fun zero =>
        higher (BitVec.eq_of_toNat_eq zero)
      have place : exponent = (unpackExponent bits).toNat - 1075 := by
        rw [← sameExponent]
        rfl
      have whole : 2 ^ 52 + (unpackMantissa bits).toNat = significand := by
        rw [← sameSignificand]
        exact (toNat_one_append _).symm
      exact ⟨positive, by omega, by omega, .inl (by omega)⟩

/-- Storing a number that is not too large and reading it gives the number. -/
theorem unpack_pack {significand : ℕ} {exponent : ℤ} (sign : Sign)
    (canonical : Canonical significand exponent) (small : exponent ≤ 971) :
    UnpackedFloat.unpack Format.binary64
        (UnpackedFloat.pack Format.binary64
          (.finite sign significand exponent canonical.positive)) =
      .finite sign significand exponent canonical.positive := by
  obtain ⟨positive, bound, least, full⟩ := canonical
  have code : (exponent + Format.binary64.exponentBias +
      Format.binary64.mantissaBitsWithoutImplicit).toNat = (exponent + 1075).toNat := by
    simp [Format.exponentBias]
    omega
  have fits : ¬ 2 ^ Format.binary64.exponentBits ≤ (exponent + 1075).toNat + 1 := by
    simp
    omega
  rcases lt_or_ge significand (2 ^ 52) with subnormal | normal
  · have length : ¬ significand.log2 + 1 = Format.binary64.mantissaBits := by
      have := (Nat.log2_lt positive.ne').mpr subnormal
      simp [Format.mantissaBits]
      omega
    have filled : BitVec.ofNat 52 significand ≠ 0#52 := by
      intro nothing
      have := congrArg BitVec.toNat nothing
      rw [BitVec.toNat_ofNat, Nat.mod_eq_of_lt subnormal] at this
      exact positive.ne' this
    have lowest : exponent = -1074 := full.resolve_left (by omega)
    simp only [UnpackedFloat.pack, code, if_neg fits, if_neg length, UnpackedFloat.unpack,
      unpackExponent_packComponents, unpackMantissa_packComponents, unpackSign_packComponents,
      Sign.ofBitVec_toBitVec]
    rw [if_neg (by decide), if_pos trivial, dif_neg filled]
    congr 1
    · rw [BitVec.toNat_ofNat, Nat.mod_eq_of_lt subnormal]
    · rw [lowest]
      rfl
  · have length : significand.log2 + 1 = Format.binary64.mantissaBits := by
      rw [(Nat.log2_eq_iff positive.ne').mpr ⟨normal, bound⟩]
      rfl
    simp only [UnpackedFloat.pack, code, if_neg fits, if_pos length, UnpackedFloat.unpack,
      unpackExponent_packComponents, unpackMantissa_packComponents, unpackSign_packComponents,
      Sign.ofBitVec_toBitVec]
    have encoded : (BitVec.ofNat 11 (exponent + 1075).toNat).toNat = (exponent + 1075).toNat := by
      rw [BitVec.toNat_ofNat, Nat.mod_eq_of_lt (by omega)]
    have notLast : BitVec.ofNat 11 (exponent + 1075).toNat ≠ -1#11 := by
      intro same
      have := congrArg BitVec.toNat same
      rw [encoded] at this
      simp at this
      omega
    have notLeast : BitVec.ofNat 11 (exponent + 1075).toNat ≠ 0#11 := by
      intro same
      have := congrArg BitVec.toNat same
      rw [encoded] at this
      simp at this
      omega
    rw [if_neg notLast, if_neg notLeast]
    congr 1
    · rw [toNat_one_append, BitVec.toNat_ofNat]
      omega
    · rw [encoded]
      simp [Format.exponentBias]
      omega

/-! ## Numbers and their values -/

/-- The number is not negative and has this exact value. -/
def Denotes (number : Float) (value : ℚ) : Prop := HasValue number.toModel.unpack value

namespace HasValue

variable {first second : UnpackedFloat} {low high value : ℚ}

theorem roundsTo_self (exact : HasValue first value) : RoundsTo value value := by
  cases exact with
  | zero =>
    refine ⟨0, -1074, ⟨le_rfl, by norm_num, by simp; positivity, fun _ => by decide, .inl rfl⟩, ?_⟩
    simp
  | @finite significand exponent canonical =>
    obtain ⟨-, bound, least, full⟩ := canonical
    have unit := two_zpow_pos exponent
    refine ⟨significand, exponent, ⟨least, bound.le, by simp; positivity, ?_, ?_⟩, rfl⟩
    · intro tie
      rw [sub_self, abs_zero] at tie
      linarith
    · refine full.symm.imp_right fun filled => ?_
      have : (2 : ℚ) ^ 52 ≤ significand := by exact_mod_cast filled
      exact mul_le_mul_of_nonneg_right this unit.le

theorem nonneg (exact : HasValue first value) : 0 ≤ value := by
  cases exact with
  | zero => exact le_rfl
  | finite canonical =>
    have := two_zpow_pos
    positivity

theorem isNaN_eq_false (exact : HasValue first value) : first.isNaN = false := by
  cases exact <;> rfl

theorem pack (exact : HasValue first value) (small : value < 2 ^ (1024 : ℤ)) :
    HasValue (Float.Model.pack first).unpack value := by
  cases exact with
  | zero =>
    have stored : (Float.Model.pack (.zero .positive)).unpack = .zero .positive := by
      rfl
    rw [stored]
    exact .zero
  | @finite significand exponent canonical =>
    have fits : exponent ≤ 971 := by
      rcases canonical.full with filled | lowest
      · have filled : (2 : ℚ) ^ 52 ≤ significand := by exact_mod_cast filled
        have unit := two_zpow_pos exponent
        have : (2 : ℚ) ^ exponent < 2 ^ (972 : ℤ) := by
          have split : (2 : ℚ) ^ (1024 : ℤ) = 2 ^ 52 * 2 ^ (972 : ℤ) :=
            zpow_add₀ two_ne_zero 52 972
          rw [split] at small
          have := mul_le_mul_of_nonneg_right filled unit.le
          linarith
        have := exponent_lt_of_zpow_lt this
        omega
      · omega
    have stored : (Float.Model.pack (.finite .positive significand exponent
        canonical.positive)).unpack = _ := unpack_pack .positive canonical fits
    rw [stored]
    exact .finite canonical

/-- Numbers in canonical form rank as their values do. -/
theorem lt_of_rank_lt (exact : HasValue first low) (other : HasValue second high)
    (below : rank first < rank second) : low < high := by
  cases exact with
  | zero =>
    cases other with
    | zero => exact absurd below (lt_irrefl _)
    | @finite significand exponent canonical =>
      have positive : (0 : ℚ) < significand := by exact_mod_cast canonical.positive
      exact mul_pos positive (two_zpow_pos exponent)
  | @finite significand exponent canonical =>
    cases other with
    | zero => simp [rank, Prod.Lex.toLex_lt_toLex] at below
    | @finite otherSignificand otherExponent otherCanonical =>
      simp only [rank, Prod.Lex.toLex_lt_toLex, lt_irrefl, false_or, true_and] at below
      rcases below with lower | ⟨rfl, fewer⟩
      · -- With a higher exponent the significand is full, and no other one makes up for that.
        have full : (2 : ℚ) ^ 52 ≤ otherSignificand := by
          have := canonical.least
          exact_mod_cast otherCanonical.full.resolve_right (by omega)
        have bound : (significand : ℚ) < 2 ^ 53 := by exact_mod_cast canonical.bound
        have unit := two_zpow_pos exponent
        have doubled := two_mul_two_zpow_le lower
        calc (significand : ℚ) * 2 ^ exponent < 2 ^ 53 * 2 ^ exponent :=
              mul_lt_mul_of_pos_right bound unit
          _ = 2 ^ 52 * (2 * 2 ^ exponent) := by ring
          _ ≤ otherSignificand * 2 ^ otherExponent :=
              mul_le_mul full doubled (by linarith) (by linarith)
      · exact mul_lt_mul_of_pos_right (by exact_mod_cast fewer) (two_zpow_pos exponent)

theorem eq_of_rank_eq (exact : HasValue first low) (other : HasValue second high)
    (same : rank first = rank second) : first = second := by
  cases exact with
  | zero =>
    cases other with
    | zero => rfl
    | finite canonical => simp [rank] at same
  | finite canonical =>
    cases other with
    | zero => simp [rank] at same
    | finite otherCanonical =>
      simp only [rank, EmbeddingLike.apply_eq_iff_eq, Prod.mk.injEq, Nat.cast_inj, true_and] at same
      obtain ⟨rfl, rfl⟩ := same
      rfl

theorem value_unique (exact : HasValue first low) (other : HasValue first high) : low = high := by
  cases exact <;> cases other <;> rfl

theorem rank_lt_iff (exact : HasValue first low) (other : HasValue second high) :
    rank first < rank second ↔ low < high := by
  refine ⟨exact.lt_of_rank_lt other, fun below => ?_⟩
  rcases lt_trichotomy (rank first) (rank second) with less | same | more
  · exact less
  · obtain rfl := exact.eq_of_rank_eq other same
    exact absurd below (exact.value_unique other).not_lt
  · exact absurd below (other.lt_of_rank_lt exact more).not_gt

/-- No two numbers have the same value. -/
theorem number_unique (exact : HasValue first value) (other : HasValue second value) :
    first = second := by
  refine exact.eq_of_rank_eq other ?_
  have notLess := mt (exact.rank_lt_iff other).mp (lt_irrefl value)
  have notMore := mt (other.rank_lt_iff exact).mp (lt_irrefl value)
  exact le_antisymm (not_lt.mp notMore) (not_lt.mp notLess)

end HasValue

namespace Denotes

variable {first second : Float} {low high value : ℚ}

theorem nonneg (exact : Denotes first value) : 0 ≤ value := HasValue.nonneg exact

theorem isNaN_eq_false (exact : Denotes first value) : first.isNaN = false :=
  HasValue.isNaN_eq_false exact

theorem lt_iff (exact : Denotes first low) (other : Denotes second high) :
    first < second ↔ low < high := by
  rw [lt_iff_rank exact.isNaN_eq_false other.isNaN_eq_false]
  exact HasValue.rank_lt_iff exact other

theorem le_iff (exact : Denotes first low) (other : Denotes second high) :
    first ≤ second ↔ low ≤ high := by
  rw [← not_lt, ← other.lt_iff exact, ← not_le_iff_lt exact.isNaN_eq_false other.isNaN_eq_false,
    not_not]

/-- No two numbers denote the same value. -/
theorem unique (exact : Denotes first value) (other : Denotes second value) : first = second := by
  have same : first.toModel.unpack = second.toModel.unpack := HasValue.number_unique exact other
  exact Float.toBits_inj.mp (UInt64.toBitVec_inj.mp
    ((unpack_inj_of_valid first.toModel.valid second.toModel.valid).mp same))

end Denotes

/-- A positive number that is not beyond a denoted one denotes a value. -/
theorem denotes_of_pos_of_le {number bound : Float} {most : ℚ} (positive : 0.0 < number)
    (below : number ≤ bound) (exact : Denotes bound most) : ∃ value, Denotes number value := by
  have isNumber := (numbers_of_lt positive).2
  rw [lt_iff_rank (numbers_of_lt positive).1 isNumber] at positive
  rw [le_iff_rank isNumber exact.isNaN_eq_false] at below
  have zero : rank (0.0 : Float).toModel.unpack = toLex (0, toLex (0, 0)) := by decide +kernel
  rw [zero] at positive
  rw [Denotes] at exact
  simp only [Denotes]
  generalize found : number.toModel.unpack = unpacked at positive below ⊢
  cases unpacked with
  | notANumber => exact absurd positive (lt_irrefl _)
  | zero sign => exact absurd positive (lt_irrefl _)
  | infinity sign =>
    cases sign with
    | negative => simp [rank, Prod.Lex.toLex_lt_toLex] at positive
    | positive =>
      -- Nothing infinite is below what has a value.
      generalize bound.toModel.unpack = other at exact below
      cases exact <;> simp [rank, Prod.Lex.toLex_le_toLex] at below
  | finite sign significand exponent filled =>
    cases sign with
    | negative => simp [rank, Prod.Lex.toLex_lt_toLex] at positive
    | positive =>
      exact ⟨_, .finite (canonical_of_unpack found)⟩

/-! ## Arithmetic -/

theorem normalize_hasValue (significand : ℕ) (exponent : ℤ) :
    ∃ rounded, RoundsTo (significand * 2 ^ exponent) rounded ∧
      HasValue (UnpackedFloat.normalize Format.binary64 significand exponent .positive) rounded := by
  rcases significand.eq_zero_or_pos with rfl | positive
  · refine ⟨0, ?_, .zero⟩
    rw [Nat.cast_zero, zero_mul]
    exact HasValue.zero.roundsTo_self
  · have greater : compare (significand : ℤ) 0 = .gt := by
      rw [compare_gt_iff_gt]
      exact_mod_cast positive
    have unfolded : UnpackedFloat.normalize Format.binary64 significand exponent .positive =
        UnpackedFloat.round Format.binary64 .positive significand exponent := by
      rw [UnpackedFloat.normalize, greater]
      rfl
    rw [unfolded]
    exact round_hasValue positive

/-- A number written with more places, so that its exponent is the one asked for. -/
theorem decreaseExponent_value (significand : ℕ) {exponent target : ℤ} (lower : target ≤ exponent) :
    (((decreaseExponent significand exponent target).1 : ℕ) : ℚ) * 2 ^ target =
      significand * 2 ^ exponent := by
  simp only [decreaseExponent, Nat.shiftLeft_eq]
  rw [two_zpow_split lower]
  push_cast
  ring

namespace HasValue

variable {first second : UnpackedFloat} {low high : ℚ}

theorem add (exact : HasValue first low) (other : HasValue second high) :
    ∃ rounded, RoundsTo (low + high) rounded ∧
      HasValue (UnpackedFloat.add Format.binary64 first second) rounded := by
  cases exact with
  | zero =>
    rw [zero_add]
    refine ⟨high, other.roundsTo_self, ?_⟩
    cases other with
    | zero => exact .zero
    | finite canonical => exact .finite canonical
  | @finite significand exponent canonical =>
    cases other with
    | zero =>
      rw [add_zero]
      exact ⟨_, (HasValue.finite canonical).roundsTo_self, .finite canonical⟩
    | @finite otherSignificand otherExponent otherCanonical =>
      have aligned := decreaseExponent_value significand
        (min_le_left exponent otherExponent)
      have otherAligned := decreaseExponent_value otherSignificand
        (min_le_right exponent otherExponent)
      have summed := normalize_hasValue
        ((decreaseExponent significand exponent (min exponent otherExponent)).1 +
          (decreaseExponent otherSignificand otherExponent (min exponent otherExponent)).1)
        (min exponent otherExponent)
      rw [Nat.cast_add, add_mul, aligned, otherAligned] at summed
      exact summed

theorem mul (exact : HasValue first low) (other : HasValue second high) :
    ∃ rounded, RoundsTo (low * high) rounded ∧
      HasValue (UnpackedFloat.mul Format.binary64 first second) rounded := by
  cases exact with
  | zero =>
    rw [zero_mul]
    refine ⟨0, HasValue.zero.roundsTo_self, ?_⟩
    cases other <;> exact .zero
  | @finite significand exponent canonical =>
    cases other with
    | zero =>
      rw [mul_zero]
      exact ⟨0, HasValue.zero.roundsTo_self, .zero⟩
    | @finite otherSignificand otherExponent otherCanonical =>
      have positive := Nat.mul_pos canonical.positive otherCanonical.positive
      -- The product of a full significand and another one is full.
      have full : 2 ^ 52 ≤ significand * otherSignificand ∨ exponent + otherExponent ≤ -1074 := by
        rcases canonical.full with filled | lowest
        · exact .inl (filled.trans (Nat.le_mul_of_pos_right _ otherCanonical.positive))
        · rcases otherCanonical.full with filled | otherLowest
          · exact .inl (filled.trans (Nat.le_mul_of_pos_left _ canonical.positive))
          · exact .inr (by omega)
      have fits : exponent + otherExponent ≤
          roundingPlace (significand * otherSignificand) (exponent + otherExponent) := by
        rw [roundingPlace_eq]
        rcases full with filled | lowest
        · have := (Nat.le_log2 positive.ne').mpr filled
          omega
        · omega
      have product : (((significand * otherSignificand : ℕ) : ℚ)) *
          2 ^ (exponent + otherExponent) =
          significand * 2 ^ exponent * (otherSignificand * 2 ^ otherExponent) := by
        rw [zpow_add₀ two_ne_zero]
        push_cast
        ring
      rw [← product]
      exact roundWithAccuracy_hasValue positive fits

theorem sub (exact : HasValue first high) (other : HasValue second low) (below : low ≤ high) :
    ∃ rounded, RoundsTo (high - low) rounded ∧
      HasValue (UnpackedFloat.sub Format.binary64 first second) rounded := by
  cases other with
  | zero =>
    rw [sub_zero]
    refine ⟨high, exact.roundsTo_self, ?_⟩
    cases exact with
    | zero => exact .zero
    | finite canonical => exact .finite canonical
  | @finite otherSignificand otherExponent otherCanonical =>
    cases exact with
    | zero =>
      have positive : (0 : ℚ) < otherSignificand := by exact_mod_cast otherCanonical.positive
      exact absurd below (mul_pos positive (two_zpow_pos otherExponent)).not_ge
    | @finite significand exponent canonical =>
      have aligned := decreaseExponent_value significand
        (min_le_left exponent otherExponent)
      have otherAligned := decreaseExponent_value otherSignificand
        (min_le_right exponent otherExponent)
      have place := two_zpow_pos (min exponent otherExponent)
      rw [← aligned, ← otherAligned] at below ⊢
      have ordered : (decreaseExponent otherSignificand otherExponent
          (min exponent otherExponent)).1 ≤
          (decreaseExponent significand exponent (min exponent otherExponent)).1 := by
        exact_mod_cast le_of_mul_le_mul_right below place
      have remaining := normalize_hasValue
        ((decreaseExponent significand exponent (min exponent otherExponent)).1 -
          (decreaseExponent otherSignificand otherExponent (min exponent otherExponent)).1)
        (min exponent otherExponent)
      rw [Nat.cast_sub ordered, sub_mul, Int.ofNat_sub ordered] at remaining
      exact remaining

end HasValue

namespace Denotes

variable {first second : Float} {low high : ℚ}

theorem of_rounded {unpacked : UnpackedFloat} {exact rounded : ℚ}
    (rounds : RoundsTo exact rounded) (value : HasValue unpacked rounded) (small : exact ≤ 2) :
    Denotes ⟨Float.Model.pack unpacked⟩ rounded := by
  have bound : OnGrid 2 := ⟨2, 0, by norm_num, by norm_num, by norm_num⟩
  have large : (2 : ℚ) ^ (1 : ℤ) < 2 ^ (1024 : ℤ) :=
    zpow_lt_zpow_right₀ one_lt_two (by norm_num)
  refine value.pack ((rounds.le_of_le bound small).trans_lt ?_)
  rwa [zpow_one] at large

theorem add (exact : Denotes first low) (other : Denotes second high) (small : low + high ≤ 2) :
    ∃ rounded, RoundsTo (low + high) rounded ∧ Denotes (first + second) rounded := by
  obtain ⟨rounded, rounds, value⟩ := HasValue.add exact other
  exact ⟨rounded, rounds, of_rounded rounds value small⟩

theorem mul (exact : Denotes first low) (other : Denotes second high) (small : low * high ≤ 2) :
    ∃ rounded, RoundsTo (low * high) rounded ∧ Denotes (first * second) rounded := by
  obtain ⟨rounded, rounds, value⟩ := HasValue.mul exact other
  exact ⟨rounded, rounds, of_rounded rounds value small⟩

theorem sub (exact : Denotes first high) (other : Denotes second low) (below : low ≤ high)
    (small : high - low ≤ 2) :
    ∃ rounded, RoundsTo (high - low) rounded ∧ Denotes (first - second) rounded := by
  obtain ⟨rounded, rounds, value⟩ := HasValue.sub exact other below
  exact ⟨rounded, rounds, of_rounded rounds value small⟩

end Denotes

theorem denotes_zero : Denotes 0.0 0 := HasValue.zero

theorem denotes_one : Denotes 1.0 1 := by
  have canonical : Canonical (2 ^ 52) (-52) := ⟨by decide, by decide, by decide, .inl le_rfl⟩
  have value : (1 : ℚ) = (2 ^ 52 : ℕ) * 2 ^ (-52 : ℤ) := by norm_num
  rw [value]
  exact HasValue.finite canonical

end ClassModel.Decimal
