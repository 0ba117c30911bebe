import ClassModel.Fuzzy
import ClassModel.Proofs.Decimal.Exact

/-! Degrees of truth in floating-point arithmetic.

Combining degrees from zero to one gives a degree again, in spite of rounding. What is certain may
lose one step when it is combined with another degree, and a product of degrees that are one step
short of certain loses exactly one step for each of them.
-/

set_option autoImplicit false

namespace ClassModel.Fuzzy

open ClassModel.Decimal

/-- A number with a value from zero to one. -/
def Degree (score : Float) : Prop := ∃ value, value ≤ 1 ∧ Denotes score value

theorem degree_zero : Degree 0.0 := ⟨0, zero_le_one, denotes_zero⟩

theorem degree_one : Degree 1.0 := ⟨1, le_rfl, denotes_one⟩

theorem degree_of_bounds {score : Float} (positive : 0.0 < score) (most : score ≤ 1.0) :
    Degree score := by
  obtain ⟨value, exact⟩ := denotes_of_pos_of_le positive most denotes_one
  exact ⟨value, (exact.le_iff denotes_one).mp most, exact⟩

/-! ## Either of two degrees -/

theorem onGrid_of_denotes {score : Float} {value : ℚ} (exact : Denotes score value) :
    OnGrid value :=
  (HasValue.roundsTo_self exact).onGrid

/-- By how much two degrees exceed one can be told without rounding. -/
theorem onGrid_excess {larger smaller : ℚ} (grid : OnGrid larger) (otherGrid : OnGrid smaller)
    (ordered : smaller ≤ larger) (most : larger ≤ 1) (exceeds : 1 < larger + smaller) :
    OnGrid (larger + smaller - 1) := by
  obtain ⟨significand, exponent, short, -, rfl⟩ := grid
  obtain ⟨otherSignificand, otherExponent, otherShort, otherLeast, rfl⟩ := otherGrid
  have high : -53 ≤ exponent := by
    by_contra low
    have unit := two_zpow_le (show exponent ≤ -54 by omega)
    have bound : (significand : ℚ) ≤ 2 ^ 53 := by exact_mod_cast short.le
    have small : significand * (2 : ℚ) ^ exponent ≤ 2 ^ 53 * 2 ^ (-54 : ℤ) :=
      mul_le_mul bound unit (two_zpow_pos exponent).le (by norm_num)
    norm_num at small
    linarith
  -- In units of the finer exponent all three terms are whole numbers.
  have whole : ∀ low ≤ otherExponent, low ≤ -53 → ∃ units : ℕ,
      significand * (2 : ℚ) ^ exponent + otherSignificand * 2 ^ otherExponent - 1 =
        units * 2 ^ low := by
    intro low below belowStep
    have one := two_zpow_split (show low ≤ 0 by omega)
    have unit := two_zpow_pos low
    rw [zpow_zero] at one
    rw [two_zpow_split (belowStep.trans high), two_zpow_split below, ← mul_assoc, ← mul_assoc,
      ← Nat.cast_mul, ← Nat.cast_mul] at exceeds ⊢
    generalize significand * 2 ^ (exponent - low).toNat = first at *
    generalize otherSignificand * 2 ^ (otherExponent - low).toNat = second at *
    generalize 2 ^ (0 - low).toNat = third at *
    have ordered : third ≤ first + second := by
      have : (third : ℚ) * 2 ^ low < (first + second : ℕ) * 2 ^ low := by
        push_cast
        linarith
      exact_mod_cast (lt_of_mul_lt_mul_right this unit.le).le
    refine ⟨first + second - third, ?_⟩
    rw [Nat.cast_sub ordered, Nat.cast_add, sub_mul, add_mul, ← one]
  rcases le_or_gt otherExponent (-53) with finer | coarser
  · -- Then the excess has no more places than the smaller degree.
    obtain ⟨units, same⟩ := whole otherExponent le_rfl finer
    have few : units ≤ otherSignificand := by
      have : (units : ℚ) * 2 ^ otherExponent ≤ otherSignificand * 2 ^ otherExponent := by
        linarith
      exact_mod_cast le_of_mul_le_mul_right this (two_zpow_pos otherExponent)
    exact ⟨units, otherExponent, by omega, otherLeast, same⟩
  · obtain ⟨units, same⟩ := whole (-53) (by omega) le_rfl
    have few : units ≤ 2 ^ 53 := by
      have : (units : ℚ) * 2 ^ (-53 : ℤ) ≤ (2 ^ 53 : ℕ) * 2 ^ (-53 : ℤ) := by
        norm_num at same ordered ⊢
        linarith
      exact_mod_cast le_of_mul_le_mul_right this (two_zpow_pos (-53))
    rw [same, ← stepBelowOne_eq]
    exact onGrid_steps few

theorem softOr_degree {first second : Float} (degree : Degree first) (other : Degree second) :
    Degree (softOr first second) := by
  obtain ⟨low, lowMost, lowExact⟩ := degree
  obtain ⟨high, highMost, highExact⟩ := other
  have lowNonneg := lowExact.nonneg
  have highNonneg := highExact.nonneg
  have lowGrid := onGrid_of_denotes lowExact
  have highGrid := onGrid_of_denotes highExact
  obtain ⟨sum, sumRounds, sumExact⟩ := lowExact.add highExact (by linarith)
  obtain ⟨product, productRounds, productExact⟩ := lowExact.mul highExact (by nlinarith)
  -- The product is at most either degree, and the sum is at least that.
  have productBelow : product ≤ low := productRounds.le_of_le lowGrid (by nlinarith)
  have sumAbove : low ≤ sum := sumRounds.ge_of_ge lowGrid (by linarith)
  have productNonneg := productExact.nonneg
  have stepPositive : 0 < stepBelowOne := by norm_num [stepBelowOne]
  have stepSmall : stepBelowOne ≤ 1 := by norm_num [stepBelowOne]
  have nearOne : sum - product ≤ 1 + stepBelowOne := by
    rcases le_or_gt (low + high) 1 with within | exceeds
    · have := sumRounds.le_of_le onGrid_one within
      linarith
    · -- What exceeds one is at most the product, and rounding adds a step at most.
      have excess : OnGrid (low + high - 1) := by
        rcases le_total low high with ordered | ordered
        · rw [add_comm low high] at exceeds ⊢
          exact onGrid_excess highGrid lowGrid ordered highMost exceeds
        · exact onGrid_excess lowGrid highGrid ordered lowMost exceeds
      have productAbove : low + high - 1 ≤ product :=
        productRounds.ge_of_ge excess (by nlinarith)
      have sumBelow : sum ≤ low + high + stepBelowOne := by
        rcases (show low + high ≤ 2 by linarith).lt_or_eq with less | same
        · have := (abs_le.mp (sumRounds.near_of_lt_two less)).2
          linarith
        · have two : OnGrid 2 := ⟨2, 0, by norm_num, by norm_num, by norm_num⟩
          have := sumRounds.le_of_le two same.le
          linarith
      linarith
  obtain ⟨rest, restRounds, restExact⟩ :=
    sumExact.sub productExact (productBelow.trans sumAbove) (by linarith)
  exact ⟨rest, restRounds.le_one nearOne, restExact⟩

theorem degree_foldl_softOr {scores : List Float} (each : ∀ score ∈ scores, Degree score)
    {start : Float} (degree : Degree start) : Degree (scores.foldl softOr start) :=
  List.foldlRecOn (motive := Degree) scores _ degree fun _ soFar score member =>
    softOr_degree soFar (each score member)

/-- The number just below one. -/
def belowOne : Float := 0.9999999999999999

theorem denotes_belowOne : Denotes belowOne (1 - stepBelowOne) := by
  have canonical : Canonical (2 ^ 53 - 1) (-53) := ⟨by decide, by decide, by decide, .inl (by decide)⟩
  have value : 1 - stepBelowOne = (2 ^ 53 - 1 : ℕ) * 2 ^ (-53 : ℤ) := by norm_num [stepBelowOne]
  rw [value]
  exact HasValue.finite canonical

theorem onGrid_belowOne : OnGrid (1 - stepBelowOne) := onGrid_of_denotes denotes_belowOne

/-- From one step short of one up to one there are two numbers. -/
theorem eq_one_or_belowOne {score : Float} {value exact : ℚ} (denotes : Denotes score value)
    (rounds : RoundsTo exact value) (atLeast : 1 - stepBelowOne ≤ exact)
    (atMost : exact ≤ 1 + stepBelowOne) : score = 1.0 ∨ score = belowOne := by
  have half : 1 / 2 ≤ 1 - stepBelowOne := by norm_num [stepBelowOne]
  have most : value ≤ 1 := rounds.le_one atMost
  have least : 1 - stepBelowOne ≤ value := rounds.ge_of_ge onGrid_belowOne atLeast
  rcases le_or_gt exact 1 with below | above
  · obtain ⟨steps, rfl, -⟩ := rounds.exists_steps (half.trans atLeast) below
    have one : (1 : ℚ) = (2 ^ 53 : ℕ) * stepBelowOne := by norm_num [stepBelowOne]
    have oneShort : 1 - stepBelowOne = (2 ^ 53 - 1 : ℕ) * stepBelowOne := by
      norm_num [stepBelowOne]
    rw [one, steps_le_iff] at most
    rw [oneShort, steps_le_iff] at least
    rcases most.lt_or_eq with less | rfl
    · obtain rfl : steps = 2 ^ 53 - 1 := by omega
      exact .inr (denotes.unique (oneShort ▸ denotes_belowOne))
    · exact .inl (denotes.unique (one ▸ denotes_one))
  · left
    have same : value = 1 := le_antisymm most (rounds.ge_of_ge onGrid_one above.le)
    exact denotes.unique (same ▸ denotes_one)

/-- What is certain stays so next to another degree, or loses one step. -/
theorem softOr_one {score : Float} (degree : Degree score) :
    softOr score 1.0 = 1.0 ∨ softOr score 1.0 = belowOne := by
  obtain ⟨value, most, exact⟩ := degree
  have nonneg := exact.nonneg
  have small : stepBelowOne ≤ 1 := by norm_num [stepBelowOne]
  obtain ⟨sum, sumRounds, sumExact⟩ := exact.add denotes_one (by linarith)
  obtain ⟨product, productRounds, productExact⟩ := exact.mul denotes_one (by linarith)
  rw [mul_one] at productRounds
  obtain rfl : product = value := productRounds.eq_of_onGrid (onGrid_of_denotes exact)
  have sumNear : |sum - (product + 1)| ≤ stepBelowOne := by
    rcases most.lt_or_eq with less | rfl
    · exact sumRounds.near_of_lt_two (by linarith)
    · have two : OnGrid (1 + 1) := ⟨2, 0, by norm_num, by norm_num, by norm_num⟩
      rw [sumRounds.eq_of_onGrid two, sub_self, abs_zero]
      norm_num [stepBelowOne]
  obtain ⟨lower, upper⟩ := abs_le.mp sumNear
  obtain ⟨rest, restRounds, restExact⟩ :=
    sumExact.sub productExact (by linarith) (by linarith)
  exact eq_one_or_belowOne restExact restRounds (by linarith) (by linarith)

/-! ## All of several degrees -/

/-- A number that is one, or one step short of it. -/
def AlmostOne (score : Float) : Prop := score = 1.0 ∨ score = belowOne

/-- How many of the scores fall short of one. -/
def shortOfOne (scores : List Float) : Nat := scores.countP fun score => score < 1.0

theorem belowOne_lt_one : belowOne < 1.0 := by
  rw [denotes_belowOne.lt_iff denotes_one]
  norm_num [stepBelowOne]

theorem one_not_lt_one : ¬ (1.0 : Float) < 1.0 := by
  rw [denotes_one.lt_iff denotes_one]
  exact lt_irrefl 1

/-- A factor one step short of one takes one step off a degree, down to one half. -/
theorem denotes_mul_belowOne {score : Float} {steps : ℕ} (few : steps < 2 ^ 52)
    (exact : Denotes score (1 - steps * stepBelowOne)) :
    Denotes (score * belowOne) (1 - (steps + 1 : ℕ) * stepBelowOne) := by
  have unit := stepBelowOne_pos
  have small : stepBelowOne ≤ 1 := by norm_num [stepBelowOne]
  have lost : (steps + 1 : ℕ) * stepBelowOne ≤ 1 / 2 := by
    have half : (1 / 2 : ℚ) = (2 ^ 52 : ℕ) * stepBelowOne := by norm_num [stepBelowOne]
    rw [half, steps_le_iff]
    exact few
  push_cast at lost
  have product : (1 - steps * stepBelowOne) * (1 - stepBelowOne) =
      1 - (steps + 1) * stepBelowOne + steps * stepBelowOne * stepBelowOne := by ring
  -- The product is off a whole number of steps by less than half a step.
  have extra : steps * stepBelowOne * stepBelowOne < stepBelowOne / 2 := by nlinarith
  have nonneg : 0 ≤ steps * stepBelowOne * stepBelowOne := by positivity
  have kept : 0 ≤ steps * stepBelowOne := by positivity
  obtain ⟨rounded, rounds, roundedExact⟩ := exact.mul denotes_belowOne (by linarith)
  have few' : steps + 1 ≤ 2 ^ 53 := by omega
  have same := one_sub_steps few'
  have near := rounds.eq_steps (2 ^ 53 - (steps + 1)) (by linarith)
    (by rw [product]; nlinarith)
    (by
      rw [← same, product]
      push_cast
      rw [abs_lt]
      constructor <;> linarith)
  rw [same, ← near]
  exact roundedExact

theorem denotes_mul_one {score : Float} {value : ℚ} (exact : Denotes score value)
    (most : value ≤ 1) : Denotes (score * 1.0) value := by
  obtain ⟨rounded, rounds, roundedExact⟩ := exact.mul denotes_one (by linarith)
  rw [mul_one] at rounds
  rwa [rounds.eq_of_onGrid (onGrid_of_denotes exact)] at roundedExact

theorem denotes_foldl_softAnd {scores : List Float} (almost : ∀ score ∈ scores, AlmostOne score)
    {start : Float} {steps : ℕ} (few : steps + shortOfOne scores ≤ 2 ^ 52)
    (exact : Denotes start (1 - steps * stepBelowOne)) :
    Denotes (scores.foldl softAnd start)
      (1 - (steps + shortOfOne scores : ℕ) * stepBelowOne) := by
  induction scores generalizing start steps with
  | nil => exact exact
  | cons score rest ih =>
    have later := fun other member => almost other (List.mem_cons_of_mem score member)
    rcases almost score List.mem_cons_self with rfl | rfl
    · have count : shortOfOne (1.0 :: rest) = shortOfOne rest := by
        simp [shortOfOne, one_not_lt_one]
      rw [count] at few ⊢
      have nonneg : 0 ≤ steps * stepBelowOne := mul_nonneg (by positivity) stepBelowOne_pos.le
      exact ih later few (denotes_mul_one exact (by linarith))
    · have count : shortOfOne (belowOne :: rest) = shortOfOne rest + 1 := by
        simp [shortOfOne, belowOne_lt_one]
      rw [count] at few ⊢
      have next := ih later (by omega) (denotes_mul_belowOne (by omega) exact)
      rwa [show steps + 1 + shortOfOne rest = steps + (shortOfOne rest + 1) by omega] at next

/-- A product of scores that are one or a step short of it is as many steps short as there are
short factors. -/
theorem denotes_softAndAll {scores : List Float} (almost : ∀ score ∈ scores, AlmostOne score)
    (few : shortOfOne scores ≤ 2 ^ 52) :
    Denotes (softAndAll scores) (1 - shortOfOne scores * stepBelowOne) := by
  have start : Denotes 1.0 (1 - (0 : ℕ) * stepBelowOne) := by
    convert denotes_one using 1
    simp
  have product := denotes_foldl_softAnd almost (by omega) start
  rwa [Nat.zero_add] at product

-- A factor below one leaves a product below one, and no factor brings it back.
theorem exists_foldl_softAnd {scores : List Float} (almost : ∀ score ∈ scores, AlmostOne score)
    {start : Float} {value : ℚ} (exact : Denotes start value) (most : value ≤ 1) :
    ∃ product, Denotes (scores.foldl softAnd start) product ∧ product ≤ value ∧
      (0 < shortOfOne scores → product ≤ 1 - stepBelowOne) := by
  induction scores generalizing start value with
  | nil => exact ⟨value, exact, le_rfl, by simp [shortOfOne]⟩
  | cons score rest ih =>
    have later := fun other member => almost other (List.mem_cons_of_mem score member)
    rcases almost score List.mem_cons_self with rfl | rfl
    · obtain ⟨product, productExact, below, short⟩ := ih later (denotes_mul_one exact most) most
      refine ⟨product, productExact, below, fun some => short ?_⟩
      simpa [shortOfOne, one_not_lt_one] using some
    · have nonneg := exact.nonneg
      have unit := stepBelowOne_pos
      obtain ⟨next, rounds, nextExact⟩ := exact.mul denotes_belowOne (by nlinarith)
      have nextBelow : next ≤ value :=
        rounds.le_of_le (onGrid_of_denotes exact) (by nlinarith)
      have nextShort : next ≤ 1 - stepBelowOne := by
        have small : stepBelowOne ≤ 1 := by norm_num [stepBelowOne]
        exact rounds.le_of_le onGrid_belowOne (by nlinarith)
      obtain ⟨product, productExact, below, -⟩ := ih later nextExact (nextBelow.trans most)
      exact ⟨product, productExact, below.trans nextBelow, fun _ => below.trans nextShort⟩

theorem softAndAll_eq_one_iff {scores : List Float}
    (almost : ∀ score ∈ scores, AlmostOne score) :
    softAndAll scores = 1.0 ↔ shortOfOne scores = 0 := by
  constructor
  · intro whole
    by_contra some
    obtain ⟨product, exact, -, short⟩ := exists_foldl_softAnd almost denotes_one le_rfl
    have below := short (Nat.pos_of_ne_zero some)
    have unit := stepBelowOne_pos
    have less : softAndAll scores < 1.0 := (Denotes.lt_iff exact denotes_one).mpr (by linarith)
    rw [whole] at less
    exact one_not_lt_one less
  · intro none
    have product := denotes_softAndAll almost (by omega)
    rw [none, Nat.cast_zero, zero_mul, sub_zero] at product
    exact product.unique denotes_one

end ClassModel.Fuzzy
