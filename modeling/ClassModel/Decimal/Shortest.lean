import ClassModel.Decimal.Binary

/-! The shortest decimal that reads back as a given binary number.

Around a number lie the reals that round to it; the ends of that interval belong to it when the
significand is even. On the grid of decimals with one significant digit, then two, and so on, the
neighbours of the exact value are tried: the first grid with a neighbour in the interval wins, and
of two the nearer.
-/

set_option autoImplicit false

namespace ClassModel.Decimal

/-- The value of the digits times a power of ten. -/
structure Digits where
  digits : Nat
  exponent : Int
  deriving DecidableEq, Repr

/-- Comparison of a decimal with a binary value, both scaled to whole numbers. -/
def compareScaled (decimal : Digits) (significand : Nat) (exponent : Int) : Ordering :=
  compare (decimal.digits * Nat.pow 10 decimal.exponent.toNat * Nat.pow 2 (-exponent).toNat)
    (significand * Nat.pow 2 exponent.toNat * Nat.pow 10 (-decimal.exponent).toNat)

/-- Whether a decimal rounds to the number with this significand and exponent. The interval is
half a unit wide on each side, and a quarter below the least normal significand. -/
def readsBack (decimal : Digits) (significand : Nat) (exponent : Int) : Bool :=
  let below := if significand = leastNormalSignificand && exponent != -1074 then 1 else 2
  let even := significand % 2 == 0
  let low := compareScaled decimal (4 * significand - below) (exponent - 2)
  let high := compareScaled decimal (4 * significand + 2) (exponent - 2)
  (low == .gt || (low == .eq && even)) && (high == .lt || (high == .eq && even))

def digitCount (n : Nat) : Nat := (Nat.toDigits 10 n).length

/-- The exponent of the leading decimal digit of a value that is not zero. -/
def leadingExponent (significand : Nat) (exponent : Int) : Int :=
  let quotient := Quotient.ofScaled significand exponent
  let guess := Int.ofNat (digitCount quotient.numerator) - Int.ofNat (digitCount quotient.denominator)
  if compareScaled ⟨1, guess⟩ significand exponent == .gt then guess - 1 else guess

/-- The neighbour, on the grid of one decimal exponent, that reads back; of two the nearer, and
of two equally near the one the tie rule picks. -/
def neighbour? (significand : Nat) (exponent grid : Int) (tie : Tie) : Option Digits :=
  let numerator := significand * Nat.pow 2 exponent.toNat * Nat.pow 10 (-grid).toNat
  let denominator := Nat.pow 2 (-exponent).toNat * Nat.pow 10 grid.toNat
  let lower : Digits := ⟨numerator / denominator, grid⟩
  let upper : Digits := ⟨numerator / denominator + 1, grid⟩
  match readsBack lower significand exponent, readsBack upper significand exponent with
  | true, false => some lower
  | false, true => some upper
  | true, true => some ⟨(Quotient.mk numerator denominator).round tie, grid⟩
  | false, false => none

def Digits.trimmed (decimal : Digits) : Digits :=
  trim (digitCount decimal.digits) decimal
where
  trim : Nat → Digits → Digits
    | 0, decimal => decimal
    | steps + 1, decimal =>
      if decimal.digits % 10 = 0 && decimal.digits != 0 then
        trim steps ⟨decimal.digits / 10, decimal.exponent + 1⟩
      else decimal

/-- The shortest decimal of a value that is not zero. Seventeen digits always read back. -/
def shortest (significand : Nat) (exponent : Int) (tie : Tie) : Digits :=
  let leading := leadingExponent significand exponent
  let found := (List.range 17).findSome? fun places =>
    neighbour? significand exponent (leading - Int.ofNat places) tie
  (found.getD ⟨significand, exponent⟩).trimmed

end ClassModel.Decimal
