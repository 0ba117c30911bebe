/-! Reading a decimal number.

The value is the nearest floating-point number, with ties to the even significand. Exponents may
be of any size: far outside the range of the numbers the result is zero or infinite.
-/

set_option autoImplicit false

namespace ClassModel.Decimal

/-- A decimal as it is written: digits, how many of them follow the point, and the power of ten. -/
structure Written where
  negative : Bool
  digits : Nat
  places : Nat
  exponent : Int

def digitValue (c : Char) : Nat := c.toNat - '0'.toNat

def naturalOfDigits (base : Nat) (cs : List Char) (value : Char → Nat) : Nat :=
  cs.foldl (fun total c => total * base + value c) 0

def natural (cs : List Char) : Nat := naturalOfDigits 10 cs digitValue

/-- Powers of ten beyond this one lead from any whole number to zero or infinity when the number
of its digits is taken off. -/
def exponentLimit : Int := 400

def Written.magnitude (number : Written) : Float :=
  let exponent := number.exponent - Int.ofNat number.places
  let leading := exponent + Int.ofNat (Nat.toDigits 10 number.digits).length
  if number.digits = 0 then 0.0
  else if exponentLimit < leading then 1.0 / 0.0
  else if leading < -exponentLimit then 0.0
  else Float.ofScientific number.digits (exponent < 0) exponent.natAbs

def Written.value (number : Written) : Float :=
  if number.negative then -number.magnitude else number.magnitude

/-- Read an optional sign, digits, an optional fraction and an optional exponent; what remains of
the text is returned too. The grammar of a format decides which texts come here. -/
def Written.read (text : List Char) : Written × List Char :=
  let (negative, unsigned) := match text with
    | '-' :: rest => (true, rest)
    | '+' :: rest => (false, rest)
    | _ => (false, text)
  let whole := unsigned.takeWhile Char.isDigit
  let (fraction, afterFraction) := match unsigned.dropWhile Char.isDigit with
    | '.' :: rest => (rest.takeWhile Char.isDigit, rest.dropWhile Char.isDigit)
    | rest => ([], rest)
  let (exponent, remaining) := match afterFraction with
    | mark :: rest => if mark = 'e' || mark = 'E' then exponentOf rest else (0, afterFraction)
    | [] => (0, [])
  (⟨negative, natural (whole ++ fraction), fraction.length, exponent⟩, remaining)
where
  exponentOf (text : List Char) : Int × List Char :=
    match text with
    | '-' :: rest => (-Int.ofNat (natural (rest.takeWhile Char.isDigit)), rest.dropWhile Char.isDigit)
    | '+' :: rest => (Int.ofNat (natural (rest.takeWhile Char.isDigit)), rest.dropWhile Char.isDigit)
    | _ => (Int.ofNat (natural (text.takeWhile Char.isDigit)), text.dropWhile Char.isDigit)

def floatOf (text : List Char) : Float := (Written.read text).1.value

end ClassModel.Decimal
