import Mathlib

/-! Letters and digits of ASCII. -/

set_option autoImplicit false

namespace ClassModel.Text

variable {c : Char}

/-! ## Kinds of characters -/

theorem isUpper_iff : c.isUpper = true ↔ 65 ≤ c.toNat ∧ c.toNat ≤ 90 := by
  simp [Char.isUpper, UInt32.le_iff_toNat_le]

theorem isLower_iff : c.isLower = true ↔ 97 ≤ c.toNat ∧ c.toNat ≤ 122 := by
  simp [Char.isLower, UInt32.le_iff_toNat_le]

theorem isDigit_iff : c.isDigit = true ↔ 48 ≤ c.toNat ∧ c.toNat ≤ 57 := by
  simp [Char.isDigit, UInt32.le_iff_toNat_le]

theorem isAlpha_iff : c.isAlpha = true ↔ c.isUpper = true ∨ c.isLower = true := by
  simp [Char.isAlpha]

theorem isAlphanum_iff : c.isAlphanum = true ↔ c.isAlpha = true ∨ c.isDigit = true := by
  simp [Char.isAlphanum]

-- The three kinds exclude each other.
theorem kinds_of_isAlphanum (alphanumeric : c.isAlphanum = true) :
    (c.isUpper = true ∧ c.isLower = false ∧ c.isDigit = false) ∨
      (c.isUpper = false ∧ c.isLower = true ∧ c.isDigit = false) ∨
      (c.isUpper = false ∧ c.isLower = false ∧ c.isDigit = true) := by
  rw [isAlphanum_iff, isAlpha_iff] at alphanumeric
  simp only [← Bool.not_eq_true, isUpper_iff, isLower_iff, isDigit_iff] at *
  omega

theorem lt_of_isAlphanum (alphanumeric : c.isAlphanum = true) : c.toNat < 128 := by
  rw [isAlphanum_iff, isAlpha_iff, isUpper_iff, isLower_iff, isDigit_iff] at alphanumeric
  omega

/-! ## Lowercase -/

theorem toLower_of_isDigit (digit : c.isDigit = true) : c.toLower = c := by
  refine Char.toLower_eq_of_not_isUpper fun capital => ?_
  rw [isUpper_iff] at capital
  rw [isDigit_iff] at digit
  omega

theorem toLower_lt_iff : c.toLower.toNat < 128 ↔ c.toNat < 128 := by
  constructor
  · intro lowered
    by_cases capital : c.isUpper = true
    · rw [isUpper_iff] at capital
      omega
    · rwa [Char.toLower_eq_of_not_isUpper capital] at lowered
  · intro small
    have each : ∀ code < 128, (Char.ofNat code).toLower.toNat < 128 := by decide +kernel
    simpa only [Char.ofNat_toNat] using each c.toNat small

def IsAscii (cs : List Char) : Prop := ∀ c ∈ cs, c.toNat < 128

theorem isAscii_map_toLower (cs : List Char) : IsAscii (cs.map Char.toLower) ↔ IsAscii cs := by
  simp [IsAscii, toLower_lt_iff]

end ClassModel.Text
