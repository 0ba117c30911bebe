import ClassModel.Decimal.Notation

/-! JSON values.

A number keeps the text it is written with, so that no digit and no sign is lost. The members of
an object keep their order.
-/

set_option autoImplicit false

namespace ClassModel

inductive Json where
  | null
  | bool (value : Bool)
  | number (literal : String)
  | string (text : String)
  | array (items : List Json)
  | object (members : List (String × Json))
  deriving Repr, Inhabited

namespace Json

def natural (n : Nat) : Json := .number (toString n)

/-- A score: a finite one as a number, anything else as null. -/
def score (x : Float) : Json :=
  match Decimal.scored? x with
  | some literal => .number literal
  | none => .null

def strings (texts : List String) : Json := .array (texts.map .string)

def ofOption {α : Type} (toJson : α → Json) : Option α → Json
  | some value => toJson value
  | none => .null

/-- The value of the first member of this name. -/
def get? (key : String) : Json → Option Json
  | .object members => members.lookup key
  | _ => none

end Json

end ClassModel
