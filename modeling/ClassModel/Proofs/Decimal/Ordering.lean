import ClassModel.Decimal.Binary
import Mathlib.Data.Prod.Lex
import Mathlib.Order.Compare

/-! The orders of floating-point numbers.

Comparing two numbers is comparing their ranks, so the comparison is total and transitive on
everything that is a number. The key that scores are sorted by tells all of them apart.
-/

set_option autoImplicit false

namespace ClassModel.Decimal

open Float.Model (UnpackedFloat)

/-! ## Integers in lexicographic order -/

theorem compare_neg (first second : Int) : compare (-first) (-second) = compare second first := by
  rw [Int.compare_eq_ite_le, Int.compare_eq_ite_le]
  simp only [Int.neg_le_neg_iff]

theorem compare_natCast (first second : Nat) :
    compare (first : Int) second = compare first second := by
  rw [Int.compare_eq_ite_le, Nat.compare_eq_ite_le]
  simp only [Int.ofNat_le]

theorem compare_triple (first second : Int ×ₗ Int ×ₗ Int) : compare first second =
    (compare (ofLex first).1 (ofLex second).1).then
      ((compare (ofLex (ofLex first).2).1 (ofLex (ofLex second).2).1).then
        (compare (ofLex (ofLex first).2).2 (ofLex (ofLex second).2).2)) := by
  simp [Prod.Lex.compare_def, compareLex, compareOn]

/-! ## Ranks -/

/-- Where a number stands: first by its sign and whether it is infinite, then by exponent and
significand. The two zeros stand in one place. -/
def rank : UnpackedFloat → Int ×ₗ Int ×ₗ Int
  | .infinity .negative => toLex (-2, toLex (0, 0))
  | .finite .negative significand exponent _ => toLex (-1, toLex (-exponent, -significand))
  | .notANumber | .zero _ => toLex (0, toLex (0, 0))
  | .finite .positive significand exponent _ => toLex (1, toLex (exponent, significand))
  | .infinity .positive => toLex (2, toLex (0, 0))

-- Only finite numbers of one sign are told apart by more than the first component.
theorem compare_rank {first second : UnpackedFloat} (number : first.isNaN = false)
    (other : second.isNaN = false) :
    first.compare second = some (compare (rank first) (rank second)) := by
  rw [compare_triple]
  cases first with
  | notANumber => cases number
  | infinity side =>
    cases second with
    | notANumber => cases other
    | infinity otherSide => cases side <;> cases otherSide <;> rfl
    | zero => cases side <;> rfl
    | finite otherSide => cases side <;> cases otherSide <;> rfl
  | zero =>
    cases second with
    | notANumber => cases other
    | infinity otherSide => cases otherSide <;> rfl
    | zero => rfl
    | finite otherSide => cases otherSide <;> rfl
  | finite side significand exponent =>
    cases second with
    | notANumber => cases other
    | infinity otherSide => cases side <;> cases otherSide <;> rfl
    | zero => cases side <;> rfl
    | finite otherSide otherSignificand otherExponent =>
      cases side <;> cases otherSide
      case negative.positive | positive.negative => rfl
      case positive.positive =>
        show _ = some ((compare exponent otherExponent).then
          (compare (significand : Int) otherSignificand))
        rw [compare_natCast]
        rfl
      case negative.negative =>
        show _ = some ((compare (-exponent) (-otherExponent)).then
          (compare (-(significand : Int)) (-otherSignificand)))
        rw [compare_neg, compare_neg, compare_natCast, ← Int.compare_swap, ← Nat.compare_swap,
          ← Ordering.swap_then]
        rfl

section

variable {first second third : Float} (number : first.isNaN = false)
  (secondNumber : second.isNaN = false) (thirdNumber : third.isNaN = false)

include number secondNumber

theorem le_iff_rank :
    first ≤ second ↔ rank first.toModel.unpack ≤ rank second.toModel.unpack := by
  have compared : first ≤ second ↔
      (first.toModel.unpack.compare second.toModel.unpack).any (·.isLE) = true :=
    decide_eq_true_iff
  rw [compared, compare_rank number secondNumber, ← compare_le_iff_le]
  exact Ordering.ne_gt_iff_isLE.symm

theorem lt_iff_rank :
    first < second ↔ rank first.toModel.unpack < rank second.toModel.unpack := by
  have compared : first < second ↔
      (first.toModel.unpack.compare second.toModel.unpack == some .lt) = true :=
    decide_eq_true_iff
  rw [compared, compare_rank number secondNumber, ← compare_lt_iff_lt]
  simp

theorem not_le_iff_lt : ¬ first ≤ second ↔ second < first := by
  rw [le_iff_rank number secondNumber, lt_iff_rank secondNumber number, not_le]

theorem le_of_lt_number (below : first < second) : first ≤ second := by
  rw [lt_iff_rank number secondNumber] at below
  exact (le_iff_rank number secondNumber).mpr below.le

include thirdNumber

theorem le_trans_number (below : first ≤ second) (above : second ≤ third) : first ≤ third := by
  rw [le_iff_rank number secondNumber] at below
  rw [le_iff_rank secondNumber thirdNumber] at above
  exact (le_iff_rank number thirdNumber).mpr (below.trans above)

theorem lt_of_le_of_lt_number (below : first ≤ second) (above : second < third) :
    first < third := by
  rw [le_iff_rank number secondNumber] at below
  rw [lt_iff_rank secondNumber thirdNumber] at above
  exact (lt_iff_rank number thirdNumber).mpr (below.trans_lt above)

theorem lt_trans_number (below : first < second) (above : second < third) : first < third :=
  lt_of_le_of_lt_number number secondNumber thirdNumber
    (le_of_lt_number number secondNumber below) above

end

theorem le_refl_number {number : Float} (isNumber : number.isNaN = false) : number ≤ number :=
  (le_iff_rank isNumber isNumber).mpr le_rfl

/-! ## What compares is a number -/

theorem numbers_of_compare {first second : UnpackedFloat} {result : Ordering}
    (compared : first.compare second = some result) :
    first.isNaN = false ∧ second.isNaN = false := by
  cases first with
  | notANumber => cases compared
  | infinity | zero | finite =>
    cases second with
    | notANumber => cases compared
    | infinity | zero | finite => exact ⟨rfl, rfl⟩

section

variable {first second third : Float}

theorem numbers_of_le (below : first ≤ second) :
    first.isNaN = false ∧ second.isNaN = false := by
  have compared : (first.toModel.unpack.compare second.toModel.unpack).any (·.isLE) = true :=
    decide_eq_true_iff.mp below
  obtain ⟨result, found, _⟩ := (Option.any_eq_true _ _).mp compared
  exact numbers_of_compare found

theorem numbers_of_lt (below : first < second) :
    first.isNaN = false ∧ second.isNaN = false := by
  have compared : (first.toModel.unpack.compare second.toModel.unpack == some .lt) = true :=
    decide_eq_true_iff.mp below
  exact numbers_of_compare (beq_iff_eq.mp compared)

theorem le_of_lt_compared (below : first < second) : first ≤ second :=
  le_of_lt_number (numbers_of_lt below).1 (numbers_of_lt below).2 below

theorem lt_of_lt_of_le_compared (below : first < second) (above : second ≤ third) :
    first < third := by
  have number := (numbers_of_lt below).1
  have secondNumber := (numbers_of_lt below).2
  have thirdNumber := (numbers_of_le above).2
  refine (not_le_iff_lt thirdNumber number).mp fun back => ?_
  exact (not_le_iff_lt secondNumber number).mpr below
    (le_trans_number secondNumber thirdNumber number above back)

end

/-! ## Keys -/

theorem toBits_injective {first second : Float} (same : first.toBits = second.toBits) :
    first = second := by
  obtain ⟨⟨bits, _⟩⟩ := first
  obtain ⟨⟨otherBits, _⟩⟩ := second
  have : bits = otherBits := same
  subst this
  rfl

-- Keys of positive sign are the bits, and those of negative sign are below them, in reverse.
theorem orderKey_injective {first second : Float} (same : orderKey first = orderKey second) :
    first = second := by
  have bound := first.toBits.toNat_lt
  have otherBound := second.toBits.toNat_lt
  refine toBits_injective (UInt64.toNat_inj.mp ?_)
  simp only [orderKey, Int.ofNat_eq_natCast, Nat.pow_eq] at same
  split at same <;> split at same <;> omega

end ClassModel.Decimal
