import ClassModel.Text.Blank
import ClassModel.Text.Lowercase

/-! How many elements stand at an end of an association, and how many instances an entity has. -/

set_option autoImplicit false

namespace ClassModel

inductive Multiplicity where
  | one
  | zeroOrOne
  | many
  deriving DecidableEq, Repr, Inhabited

namespace Multiplicity

def isMany : Multiplicity → Bool
  | .many => true
  | _ => false

/-- Read one of the usual forms, in any case and with blanks around it. -/
def parse? (text : String) : Option Multiplicity :=
  let text := Text.lowercase (Text.trim text)
  if text ∈ ["one", "1", "1..1"] then some .one
  else if text ∈ ["zero-or-one", "zeroone", "optional", "0..1"] then some .zeroOrOne
  else if text ∈ ["many", "*", "0..*", "1..*"] then some .many
  else none

def label : Multiplicity → String
  | .one => "1"
  | .zeroOrOne => "0..1"
  | .many => "*"

end Multiplicity

/-- A bound on the number of instances of an entity. -/
inductive Cardinality where
  | exact (count : UInt32)
  | unbounded
  | upTo (count : UInt32)
  deriving DecidableEq, Repr

namespace Cardinality

/-- Read a count: digits, with a plus sign allowed before them, that fit 32 bits. -/
def count? (cs : List Char) : Option UInt32 :=
  let digits := match cs with
    | '+' :: rest => rest
    | _ => cs
  let value := digits.foldl (fun total c => total * 10 + (c.toNat - '0'.toNat)) 0
  if !digits.isEmpty && digits.all Char.isDigit && value < UInt32.size then
    some (UInt32.ofNat value)
  else none

/-- Read a count, a range from zero, or a star. -/
def parse? (text : String) : Option Cardinality :=
  match Text.trimChars text.toList with
  | ['*'] => some .unbounded
  | ['0', '.', '.', '*'] => some .unbounded
  | '0' :: '.' :: '.' :: upper => (count? upper).map .upTo
  | count => (count? count).map .exact

end Cardinality

end ClassModel
