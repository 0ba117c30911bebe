import ClassModel.Decimal.Shortest

/-! Written forms of a floating-point number.

`scored` is the form of scores in tables and data files: positional from 0.00001 up to ten to the
sixteenth, with a power of ten outside. `plain` is always positional. `fixed` has a fixed number of
places. Each keeps the sign of a negative zero.
-/

set_option autoImplicit false

namespace ClassModel.Decimal

def digitText (n : Nat) : String := String.ofList (Nat.toDigits 10 n)

def zeros (count : Nat) : String := String.ofList (List.replicate count '0')

/-- Positional notation with at least one digit on each side of the point. -/
def Digits.positional (decimal : Digits) : String :=
  let text := digitText decimal.digits
  if 0 ≤ decimal.exponent then text ++ zeros decimal.exponent.toNat ++ ".0"
  else
    let places := (-decimal.exponent).toNat
    let padded := zeros (places + 1 - text.length) ++ text
    let whole := padded.toList.take (padded.length - places)
    let fraction := padded.toList.drop (padded.length - places)
    String.ofList whole ++ "." ++ String.ofList fraction

/-- One digit, a point and further digits if there are any, and the power of ten. -/
def Digits.scientific (decimal : Digits) : String :=
  let text := (digitText decimal.digits).toList
  let leading := decimal.exponent + Int.ofNat (text.length - 1)
  let fraction := if text.length ≤ 1 then "" else "." ++ String.ofList (text.drop 1)
  String.ofList (text.take 1) ++ fraction ++ "e" ++ toString leading

/-- The sign and the digits of a number that is finite. -/
structure Signed where
  negative : Bool
  magnitude : Digits

def signText (negative : Bool) : String := if negative then "-" else ""

def finite? (x : Float) (tie : Tie) : Option Signed :=
  match Binary.ofFloat x with
  | .finite negative 0 _ => some ⟨negative, ⟨0, 0⟩⟩
  | .finite negative significand exponent => some ⟨negative, shortest significand exponent tie⟩
  | _ => none

/-- The text of a number that is not finite. -/
def specialText (x : Float) (notANumber : String) : String :=
  match Binary.ofFloat x with
  | .infinite negative => signText negative ++ "inf"
  | _ => notANumber

/-- The scored form of a finite number. -/
def scored? (x : Float) : Option String :=
  (finite? x .toEven).map fun number =>
    let decimal := number.magnitude
    let leading := decimal.exponent + Int.ofNat (digitCount decimal.digits) - 1
    let text :=
      if decimal.digits = 0 || (-5 ≤ leading && leading < 16) then decimal.positional
      else decimal.scientific
    signText number.negative ++ text

def scored (x : Float) : String := (scored? x).getD (specialText x "NaN")

def plain (x : Float) : String :=
  match finite? x .awayFromZero with
  | some number => signText number.negative ++ number.magnitude.positional
  | none => specialText x "nan"

/-- Digits with a point before the last so many of them. -/
def withPlaces (digits places : Nat) : String :=
  if places = 0 then digitText digits
  else (Digits.mk digits (-Int.ofNat places)).positional

/-- The exact value to a fixed number of places, halves to the even digit. -/
def fixed (x : Float) (places : Nat) : String :=
  match Binary.ofFloat x with
  | .finite negative significand exponent =>
    let scaled := Quotient.ofScaled (significand * Nat.pow 10 places) exponent
    signText negative ++ withPlaces (scaled.round .toEven) places
  | _ => specialText x "NaN"

end ClassModel.Decimal
