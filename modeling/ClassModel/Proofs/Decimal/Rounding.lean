import Mathlib.Algebra.Order.Field.Power
import Mathlib.Algebra.Order.Ring.Abs
import Mathlib.Data.Rat.Cast.Order
import Mathlib.Tactic.Linarith
import Mathlib.Tactic.NormNum
import Mathlib.Tactic.Positivity
import Mathlib.Tactic.Ring

/-! Rounding to the nearest floating-point number.

A rounded number is a whole multiple of a power of two, no further from the exact one than half of
that power. The power is the least there is, or the number fills all the places of a significand. So
rounding respects every bound that is a floating-point number itself.
-/

set_option autoImplicit false

namespace ClassModel.Decimal

/-! ## Powers of two -/

theorem two_zpow_pos (exponent : ℤ) : (0 : ℚ) < 2 ^ exponent := zpow_pos (by norm_num) exponent

theorem two_zpow_split {low high : ℤ} (ordered : low ≤ high) :
    (2 : ℚ) ^ high = ((2 ^ (high - low).toNat : ℕ) : ℚ) * 2 ^ low := by
  have apart : ((high - low).toNat : ℤ) = high - low := Int.toNat_of_nonneg (by omega)
  rw [Nat.cast_pow, Nat.cast_ofNat, ← zpow_natCast, apart, ← zpow_add₀ two_ne_zero]
  congr 1
  omega

theorem two_zpow_le {low high : ℤ} (ordered : low ≤ high) : (2 : ℚ) ^ low ≤ 2 ^ high :=
  zpow_le_zpow_right₀ one_le_two ordered

theorem two_mul_two_zpow_le {low high : ℤ} (ordered : low < high) :
    2 * (2 : ℚ) ^ low ≤ 2 ^ high := by
  have next : (2 : ℚ) ^ (low + 1) = 2 ^ low * 2 := zpow_add_one₀ two_ne_zero low
  have := two_zpow_le (show low + 1 ≤ high by omega)
  linarith

theorem exponent_lt_of_zpow_lt {low high : ℤ} (less : (2 : ℚ) ^ low < 2 ^ high) : low < high :=
  (zpow_lt_zpow_iff_right₀ one_lt_two).mp less

/-! ## Rounded numbers -/

/-- A number of at most 53 significant bits, none of them below the least place there is. -/
def OnGrid (value : ℚ) : Prop :=
  ∃ (significand : ℕ) (exponent : ℤ),
    significand < 2 ^ 53 ∧ -1074 ≤ exponent ∧ value = significand * 2 ^ exponent

/-- A whole number of units at a place is the exact number rounded to the nearest one, a tie to the
even one. -/
structure RoundsAt (exact : ℚ) (whole : ℕ) (place : ℤ) : Prop where
  least : -1074 ≤ place
  bound : whole ≤ 2 ^ 53
  near : |whole * 2 ^ place - exact| ≤ (2 : ℚ) ^ place / 2
  even : |whole * 2 ^ place - exact| = (2 : ℚ) ^ place / 2 → Even whole
  full : place = -1074 ∨ 2 ^ 52 * (2 : ℚ) ^ place ≤ exact

def RoundsTo (exact rounded : ℚ) : Prop :=
  ∃ (whole : ℕ) (place : ℤ), RoundsAt exact whole place ∧ rounded = whole * 2 ^ place

namespace RoundsAt

variable {exact : ℚ} {whole : ℕ} {place : ℤ}

theorem le_add (rounds : RoundsAt exact whole place) :
    whole * (2 : ℚ) ^ place ≤ exact + 2 ^ place / 2 := by
  have := (abs_le.mp rounds.near).2
  linarith

theorem sub_le (rounds : RoundsAt exact whole place) :
    exact - 2 ^ place / 2 ≤ whole * (2 : ℚ) ^ place := by
  have := (abs_le.mp rounds.near).1
  linarith

/-- Two multiples of one unit that differ are at least a unit apart. -/
theorem add_unit_le {first second : ℕ} {unit : ℚ} (positive : 0 < unit)
    (less : first * unit < second * unit) : first * unit + unit ≤ second * unit := by
  have next : first + 1 ≤ second := by
    have := lt_of_mul_lt_mul_right less positive.le
    exact_mod_cast this
  have : ((first : ℚ) + 1) * unit ≤ second * unit :=
    mul_le_mul_of_nonneg_right (by exact_mod_cast next) positive.le
  linarith

/-- Away from the least place, rounding fills the significand. -/
theorem filled (rounds : RoundsAt exact whole place) : place = -1074 ∨ 2 ^ 52 ≤ whole := by
  refine rounds.full.imp_right fun full => ?_
  by_contra short
  -- A multiple of the unit that is within half a unit of a bound that is one, or of what is above
  -- the bound, reaches it.
  have less : (whole : ℚ) * 2 ^ place < (2 ^ 52 : ℕ) * 2 ^ place :=
    mul_lt_mul_of_pos_right (by exact_mod_cast not_le.mp short) (two_zpow_pos place)
  have apart := add_unit_le (two_zpow_pos place) less
  have := rounds.sub_le
  have := two_zpow_pos place
  push_cast at apart
  linarith

/-- A number of the grid with a finer place than that of rounding is below all that is rounded
there. -/
theorem lt_of_finer (rounds : RoundsAt exact whole place) {significand : ℕ} {exponent : ℤ}
    (small : significand < 2 ^ 53) (least : -1074 ≤ exponent) (finer : exponent < place) :
    (significand : ℚ) * 2 ^ exponent < exact ∧
      (significand : ℚ) * 2 ^ exponent < whole * 2 ^ place := by
  have below : (significand : ℚ) * 2 ^ exponent < 2 ^ 52 * 2 ^ place := by
    have unit := two_zpow_pos exponent
    have halved := two_mul_two_zpow_le finer
    have : (significand : ℚ) < 2 ^ 53 := by exact_mod_cast small
    nlinarith
  have notLowest : place ≠ -1074 := by omega
  have filled : (2 : ℚ) ^ 52 ≤ whole := by
    exact_mod_cast rounds.filled.resolve_left notLowest
  exact ⟨below.trans_le (rounds.full.resolve_left notLowest),
    below.trans_le (mul_le_mul_of_nonneg_right filled (two_zpow_pos place).le)⟩

end RoundsAt

namespace RoundsTo

variable {exact rounded : ℚ}

theorem onGrid (rounds : RoundsTo exact rounded) : OnGrid rounded := by
  obtain ⟨whole, place, rounds, rfl⟩ := rounds
  rcases rounds.bound.lt_or_eq with small | rfl
  · exact ⟨whole, place, small, rounds.least, rfl⟩
  · refine ⟨2 ^ 52, place + 1, by norm_num, by have := rounds.least; omega, ?_⟩
    rw [zpow_add_one₀ two_ne_zero]
    push_cast
    ring

/-- Rounding respects an upper bound of the grid. -/
theorem le_of_le (rounds : RoundsTo exact rounded) {bound : ℚ} (grid : OnGrid bound)
    (below : exact ≤ bound) : rounded ≤ bound := by
  obtain ⟨whole, place, rounds, rfl⟩ := rounds
  obtain ⟨significand, exponent, small, least, rfl⟩ := grid
  rcases lt_or_ge exponent place with finer | coarser
  · exact absurd below (rounds.lt_of_finer small least finer).1.not_ge
  · -- The bound is a multiple of the unit, and what is beyond it is a whole unit beyond.
    rw [two_zpow_split coarser, ← mul_assoc, ← Nat.cast_mul] at below ⊢
    by_contra above
    have := RoundsAt.add_unit_le (two_zpow_pos place) (not_le.mp above)
    have := rounds.le_add
    have := two_zpow_pos place
    linarith

/-- Rounding respects a lower bound of the grid. -/
theorem ge_of_ge (rounds : RoundsTo exact rounded) {bound : ℚ} (grid : OnGrid bound)
    (above : bound ≤ exact) : bound ≤ rounded := by
  obtain ⟨whole, place, rounds, rfl⟩ := rounds
  obtain ⟨significand, exponent, small, least, rfl⟩ := grid
  rcases lt_or_ge exponent place with finer | coarser
  · exact (rounds.lt_of_finer small least finer).2.le
  · rw [two_zpow_split coarser, ← mul_assoc, ← Nat.cast_mul] at above ⊢
    by_contra below
    have := RoundsAt.add_unit_le (two_zpow_pos place) (not_le.mp below)
    have := rounds.sub_le
    have := two_zpow_pos place
    linarith

theorem eq_of_onGrid (rounds : RoundsTo exact rounded) (grid : OnGrid exact) : rounded = exact :=
  le_antisymm (rounds.le_of_le grid le_rfl) (rounds.ge_of_ge grid le_rfl)

end RoundsTo

/-! ## Around one -/

/-- The distance between neighbours just below one; above one they are twice as far apart. -/
def stepBelowOne : ℚ := 1 / 2 ^ 53

theorem stepBelowOne_eq : stepBelowOne = 2 ^ (-53 : ℤ) := by norm_num [stepBelowOne]

theorem stepBelowOne_pos : 0 < stepBelowOne := by norm_num [stepBelowOne]

theorem one_sub_steps {steps : ℕ} (few : steps ≤ 2 ^ 53) :
    1 - steps * stepBelowOne = ((2 ^ 53 - steps : ℕ) : ℚ) * stepBelowOne := by
  rw [Nat.cast_sub few, sub_mul]
  norm_num [stepBelowOne]

theorem steps_le_iff {fewer more : ℕ} :
    fewer * stepBelowOne ≤ more * stepBelowOne ↔ fewer ≤ more := by
  rw [mul_le_mul_iff_of_pos_right stepBelowOne_pos, Nat.cast_le]

theorem onGrid_steps {steps : ℕ} (few : steps ≤ 2 ^ 53) : OnGrid (steps * stepBelowOne) := by
  rw [stepBelowOne_eq]
  rcases few.lt_or_eq with small | rfl
  · exact ⟨steps, -53, small, by norm_num, rfl⟩
  · exact ⟨1, 0, by norm_num, by norm_num, by norm_num⟩

theorem onGrid_one : OnGrid 1 := ⟨1, 0, by norm_num, by norm_num, by norm_num⟩

namespace RoundsTo

variable {exact rounded : ℚ}

/-- Below two the error is at most a step. -/
theorem near_of_lt_two (rounds : RoundsTo exact rounded) (small : exact < 2) :
    |rounded - exact| ≤ stepBelowOne := by
  obtain ⟨whole, place, rounds, rfl⟩ := rounds
  have low : place ≤ -52 := by
    rcases rounds.full with lowest | filled
    · omega
    · have : (2 : ℚ) ^ place < 2 ^ (-51 : ℤ) := by norm_num; linarith
      have := exponent_lt_of_zpow_lt this
      omega
  have unit := two_zpow_le low
  refine rounds.near.trans ?_
  norm_num [stepBelowOne] at unit ⊢
  linarith

/-- The step above one that is halfway to the next number is rounded to one, which is even. -/
theorem le_one (rounds : RoundsTo exact rounded) (small : exact ≤ 1 + stepBelowOne) :
    rounded ≤ 1 := by
  rcases le_or_gt exact 1 with below | above
  · exact rounds.le_of_le onGrid_one below
  obtain ⟨whole, place, rounds, rfl⟩ := rounds
  have low : place ≤ -52 := by
    rcases rounds.full with lowest | filled
    · omega
    · have : (2 : ℚ) ^ place < 2 ^ (-51 : ℤ) := by
        norm_num [stepBelowOne] at small ⊢
        linarith
      have := exponent_lt_of_zpow_lt this
      omega
  rcases low.lt_or_eq with finer | rfl
  · have unit := two_zpow_le (show place ≤ -53 by omega)
    have most : (whole : ℚ) ≤ 2 ^ 53 := by exact_mod_cast rounds.bound
    calc (whole : ℚ) * 2 ^ place ≤ 2 ^ 53 * 2 ^ (-53 : ℤ) :=
          mul_le_mul most unit (two_zpow_pos place).le (by norm_num)
      _ = 1 := by norm_num
  · -- The next number above one is a tie away at most, and it is odd.
    by_contra beyond
    have next : 2 ^ 52 + 1 ≤ whole := by
      have : ((2 ^ 52 : ℕ) : ℚ) < whole := by
        norm_num at beyond
        push_cast
        linarith
      exact_mod_cast this
    have upper := rounds.le_add
    have last : whole = 2 ^ 52 + 1 := by
      have : (whole : ℚ) < ((2 ^ 52 + 2 : ℕ) : ℚ) := by
        norm_num [stepBelowOne] at small upper
        push_cast
        linarith
      have : whole < 2 ^ 52 + 2 := by exact_mod_cast this
      omega
    subst last
    have tie : |((2 ^ 52 + 1 : ℕ) : ℚ) * 2 ^ (-52 : ℤ) - exact| = 2 ^ (-52 : ℤ) / 2 := by
      rw [abs_of_nonneg]
      · norm_num [stepBelowOne] at small upper ⊢
        linarith
      · norm_num [stepBelowOne] at small ⊢
        linarith
    exact absurd (rounds.even tie) (by decide)

/-- From one half to one, rounding is to the nearest number of steps. -/
theorem exists_steps (rounds : RoundsTo exact rounded) (half : 1 / 2 ≤ exact)
    (most : exact ≤ 1) :
    ∃ steps : ℕ, rounded = steps * stepBelowOne ∧ |rounded - exact| ≤ stepBelowOne / 2 := by
  have atLeast : 1 / 2 ≤ rounded :=
    rounds.ge_of_ge ⟨1, -1, by norm_num, by norm_num, by norm_num⟩ half
  rcases most.lt_or_eq with below | rfl
  · obtain ⟨whole, place, rounds, rfl⟩ := rounds
    have low : place < -52 := by
      rcases rounds.full with lowest | filled
      · omega
      · refine exponent_lt_of_zpow_lt ?_
        norm_num
        linarith
    rcases (show place ≤ -53 by omega).lt_or_eq with finer | rfl
    · -- A finer place has room for a half at most, and that is a number of steps.
      have unit := two_zpow_le (show place ≤ -54 by omega)
      have full : (whole : ℚ) ≤ 2 ^ 53 := by exact_mod_cast rounds.bound
      have atMost : whole * (2 : ℚ) ^ place ≤ 2 ^ 53 * 2 ^ (-54 : ℤ) :=
        mul_le_mul full unit (two_zpow_pos place).le (by norm_num)
      refine ⟨2 ^ 52, ?_, ?_⟩
      · norm_num [stepBelowOne] at atLeast atMost ⊢
        linarith
      · have := rounds.near
        norm_num [stepBelowOne] at unit ⊢
        linarith
    · refine ⟨whole, by rw [stepBelowOne_eq], ?_⟩
      rw [stepBelowOne_eq]
      exact rounds.near
  · have same := rounds.eq_of_onGrid onGrid_one
    refine ⟨2 ^ 53, by rw [same]; norm_num [stepBelowOne], ?_⟩
    rw [same]
    norm_num [stepBelowOne]

/-- A number of steps is what all closer than half a step to it are rounded to. -/
theorem eq_steps (rounds : RoundsTo exact rounded) (steps : ℕ) (half : 1 / 2 ≤ exact)
    (most : exact ≤ 1) (close : |steps * stepBelowOne - exact| < stepBelowOne / 2) :
    rounded = steps * stepBelowOne := by
  obtain ⟨other, rfl, near⟩ := rounds.exists_steps half most
  have unit : 0 < stepBelowOne := by norm_num [stepBelowOne]
  rw [abs_lt] at close
  rw [abs_le] at near
  rcases lt_trichotomy ((steps : ℚ) * stepBelowOne) (other * stepBelowOne) with less | same | more
  · have := RoundsAt.add_unit_le unit less
    linarith
  · exact same.symm
  · have := RoundsAt.add_unit_le unit more
    linarith

end RoundsTo

end ClassModel.Decimal
