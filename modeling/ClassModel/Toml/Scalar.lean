import ClassModel.Decimal.Reader
import ClassModel.Toml.Value

/-! Values written as a bare word: truth values, numbers, dates and times.

Digits may be grouped by single underscores. A number has no leading zeros, a fraction has digits
on both sides of its point, and a number too large for a floating-point number is refused.
-/

set_option autoImplicit false

namespace ClassModel.Toml

/-- Digits without the underscores that stand singly between them. -/
def ungroup? (isDigit : Char → Bool) : List Char → Option (List Char)
  | [] => none
  | [c] => if isDigit c then some [c] else none
  | c :: '_' :: rest => if isDigit c then (ungroup? isDigit rest).map (c :: ·) else none
  | c :: rest => if isDigit c then (ungroup? isDigit rest).map (c :: ·) else none

/-- The digits before a point: a zero does not lead others. -/
def wholeDigits? (cs : List Char) : Option (List Char) :=
  match ungroup? Char.isDigit cs with
  | some ('0' :: _ :: _) => none
  | digits => digits

/-- Whether a sign says minus, and the text behind the sign if there is one. -/
def takeSign : List Char → Bool × List Char
  | '-' :: rest => (true, rest)
  | '+' :: rest => (false, rest)
  | cs => (false, cs)

def signed {α : Type} [Neg α] (negative : Bool) (magnitude : α) : α :=
  if negative then -magnitude else magnitude

/-! ## Numbers -/

def letterDigitValue (c : Char) : Nat :=
  if c.isDigit then c.toNat - '0'.toNat else c.toLower.toNat - 'a'.toNat + 10

def isDigitBelow (base : Nat) (c : Char) : Bool := c.isAlphanum && letterDigitValue c < base

/-- Digits of another base than ten. -/
def naturalIn? (base : Nat) (cs : List Char) : Option Int :=
  (ungroup? (isDigitBelow base) cs).map fun digits =>
    Int.ofNat (Decimal.naturalOfDigits base digits letterDigitValue)

def integer? : List Char → Option Int
  | '0' :: 'x' :: rest => naturalIn? 16 rest
  | '0' :: 'o' :: rest => naturalIn? 8 rest
  | '0' :: 'b' :: rest => naturalIn? 2 rest
  | cs =>
    let (negative, unsigned) := takeSign cs
    (wholeDigits? unsigned).map fun digits => signed negative (Int.ofNat (Decimal.natural digits))

/-- The largest range of whole numbers that is read. -/
def isReadable (n : Int) : Bool := -(Int.pow 2 127) ≤ n && n < Int.pow 2 128

def isGroupedDigit (c : Char) : Bool := c.isDigit || c == '_'

/-- The exponent at the end of a number; without one it is zero. -/
def exponent? : List Char → Option Int
  | [] => some 0
  | mark :: rest =>
    if mark = 'e' || mark = 'E' then
      let (negative, unsigned) := takeSign rest
      (ungroup? Char.isDigit unsigned).map fun digits =>
        signed negative (Int.ofNat (Decimal.natural digits))
    else none

/-- A number with a fraction, an exponent or both. -/
def fractional? (cs : List Char) : Option Decimal.Written := do
  let (negative, unsigned) := takeSign cs
  let whole ← wholeDigits? (unsigned.takeWhile isGroupedDigit)
  match unsigned.dropWhile isGroupedDigit with
  | '.' :: rest =>
    let fraction ← ungroup? Char.isDigit (rest.takeWhile isGroupedDigit)
    let exponent ← exponent? (rest.dropWhile isGroupedDigit)
    return ⟨negative, Decimal.natural (whole ++ fraction), fraction.length, exponent⟩
  | rest =>
    let exponent ← exponent? rest
    return ⟨negative, Decimal.natural whole, 0, exponent⟩

def real? (cs : List Char) : Option Float :=
  let (negative, unsigned) := takeSign cs
  if unsigned = ['i', 'n', 'f'] then some (signed negative (1.0 / 0.0))
  else if unsigned = ['n', 'a', 'n'] then some (signed negative (0.0 / 0.0))
  else
    match fractional? cs with
    | some written => if written.value.isInf then none else some written.value
    | none => none

/-! ## Dates and times -/

/-- A number of exactly so many digits, and the text behind it. -/
def fixedDigits? (count : Nat) (cs : List Char) : Option (Nat × List Char) :=
  let digits := cs.take count
  if digits.length = count && digits.all Char.isDigit then
    some (Decimal.natural digits, cs.drop count)
  else none

def expect? (c : Char) : List Char → Option (List Char)
  | d :: rest => if d = c then some rest else none
  | [] => none

def isLeapYear (year : Nat) : Bool := year % 4 == 0 && (year % 100 != 0 || year % 400 == 0)

def daysIn (year month : Nat) : Nat :=
  if month = 2 then (if isLeapYear year then 29 else 28)
  else if month ∈ [4, 6, 9, 11] then 30
  else 31

/-- The text behind a date. -/
def afterDate? (cs : List Char) : Option (List Char) := do
  let (year, rest) ← fixedDigits? 4 cs
  let (month, rest) ← fixedDigits? 2 (← expect? '-' rest)
  let (day, rest) ← fixedDigits? 2 (← expect? '-' rest)
  if 1 ≤ month && month ≤ 12 && 1 ≤ day && day ≤ daysIn year month then some rest else none

/-- The text behind the fraction of a second, if there is one. -/
def afterFraction? : List Char → Option (List Char)
  | '.' :: rest =>
    if (rest.takeWhile Char.isDigit).isEmpty then none else some (rest.dropWhile Char.isDigit)
  | cs => some cs

/-- The text behind a time of day; seconds may be left out. -/
def afterTime? (cs : List Char) : Option (List Char) := do
  let (hour, rest) ← fixedDigits? 2 cs
  let (minute, rest) ← fixedDigits? 2 (← expect? ':' rest)
  if 23 < hour || 59 < minute then none
  else
    match rest with
    | ':' :: rest =>
      let (second, rest) ← fixedDigits? 2 rest
      if second ≤ 60 then afterFraction? rest else none
    | rest => some rest

/-- Whether a text is the distance from universal time, or nothing. -/
def isOffset : List Char → Bool
  | [] => true
  | ['Z'] => true
  | ['z'] => true
  | sign :: rest =>
    (sign = '+' || sign = '-') &&
      match fixedDigits? 2 rest with
      | some (hours, ':' :: rest) =>
        match fixedDigits? 2 rest with
        | some (minutes, []) => hours ≤ 23 && minutes ≤ 59
        | _ => false
      | _ => false

def isMoment (cs : List Char) : Bool :=
  match afterDate? cs with
  | some [] => true
  | some (mark :: rest) =>
    (mark = 'T' || mark = 't' || mark = ' ') &&
      ((afterTime? rest).map isOffset).getD false
  | none => afterTime? cs = some []

/-! ## Words -/

def Value.ofWord? (cs : List Char) : Option Value :=
  if cs = ['t', 'r', 'u', 'e'] then some (.boolean true)
  else if cs = ['f', 'a', 'l', 's', 'e'] then some (.boolean false)
  else
    match integer? cs with
    | some n => if isReadable n then some (.integer n) else none
    | none =>
      match real? cs with
      | some x => some (.real x)
      | none => if isMoment cs then some (.moment (String.ofList cs)) else none

def isWordChar (c : Char) : Bool := c.isAlphanum || ['_', '+', '-', '.', ':'].contains c

/-- The word a text starts with. A blank joins a date to the time behind it. -/
def takeWord (cs : List Char) : List Char × List Char :=
  let word := cs.takeWhile isWordChar
  match cs.dropWhile isWordChar with
  | ' ' :: c :: rest =>
    if afterDate? word = some [] && c.isDigit then
      let time := (c :: rest).takeWhile isWordChar
      (word ++ ' ' :: time, (c :: rest).dropWhile isWordChar)
    else (word, ' ' :: c :: rest)
  | rest => (word, rest)

def readWord (cs : List Char) : Option (Value × List Char) :=
  let (word, rest) := takeWord cs
  (Value.ofWord? word).map (·, rest)

end ClassModel.Toml
