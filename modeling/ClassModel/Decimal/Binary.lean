/-! The exact value of a binary floating-point number.

A finite number is a sign, a natural significand and a power of two. The exact value is what
rounding and printing start from, so that both are integer arithmetic.
-/

set_option autoImplicit false

namespace ClassModel.Decimal

/-- A number read off its bits; a finite one is its significand times a power of two. -/
inductive Binary where
  | nan
  | infinite (negative : Bool)
  | finite (negative : Bool) (significand : Nat) (exponent : Int)
  deriving DecidableEq, Repr

/-- The significand at which the distance to the next smaller number halves. -/
def leastNormalSignificand : Nat := Nat.pow 2 52

def Binary.ofBits (bits : Nat) : Binary :=
  let negative := bits / Nat.pow 2 63 == 1
  let biased := bits / Nat.pow 2 52 % Nat.pow 2 11
  let fraction := bits % Nat.pow 2 52
  if biased = 2047 then
    if fraction = 0 then .infinite negative else .nan
  else if biased = 0 then .finite negative fraction (-1074)
  else .finite negative (Nat.pow 2 52 + fraction) (Int.ofNat biased - 1075)

def Binary.ofFloat (x : Float) : Binary := .ofBits x.toBits.toNat

structure Quotient where
  numerator : Nat
  denominator : Nat

def Quotient.ofScaled (significand : Nat) (exponent : Int) : Quotient :=
  ⟨significand * Nat.pow 2 exponent.toNat, Nat.pow 2 (-exponent).toNat⟩

/-- Whether a value that lies halfway between two results goes to the even one or away from zero. -/
inductive Tie where
  | toEven
  | awayFromZero
  deriving DecidableEq, Repr

/-- The whole number nearest to a quotient. -/
def Quotient.round (quotient : Quotient) (tie : Tie) : Nat :=
  let whole := quotient.numerator / quotient.denominator
  let rest := quotient.numerator % quotient.denominator
  match compare (2 * rest) quotient.denominator, tie with
  | .lt, _ => whole
  | .gt, _ => whole + 1
  | .eq, .awayFromZero => whole + 1
  | .eq, .toEven => if whole % 2 = 0 then whole else whole + 1

/-- The nearest whole number, halves away from zero, as a number; the sign is kept even when
the result is zero. -/
def roundHalfAway (x : Float) : Float :=
  match Binary.ofFloat x with
  | .finite negative significand exponent =>
    if 0 ≤ exponent then x
    else
      let whole := Float.ofNat ((Quotient.ofScaled significand exponent).round .awayFromZero)
      if negative then -whole else whole
  | _ => x

def roundThousandths (x : Float) : Float := roundHalfAway (x * 1000.0) / 1000.0

/-- A key that orders numbers as their sign and magnitude do, with -0.0 below 0.0. -/
def orderKey (x : Float) : Int :=
  let bits := x.toBits.toNat
  if bits < Nat.pow 2 63 then Int.ofNat bits
  else Int.ofNat (Nat.pow 2 63) - 1 - Int.ofNat bits

/-- A number pulled into an interval; what is not a number stays so. -/
def clamp (low high x : Float) : Float :=
  if x < low then low else if high < x then high else x

/-- The larger of two numbers, or the one of them that is a number. -/
def larger (first second : Float) : Float :=
  if first < second || first.isNaN then second else first

@[simp] theorem larger_self (x : Float) : larger x x = x := ite_self x

end ClassModel.Decimal
