/-! Values of a TOML text.

A date or time keeps the text it is written with. The members of a table keep their order.
-/

set_option autoImplicit false

namespace ClassModel.Toml

inductive Value where
  | text (value : String)
  | integer (value : Int)
  | real (value : Float)
  | boolean (value : Bool)
  /-- A date, a time or both. -/
  | moment (literal : String)
  | list (items : List Value)
  | table (members : List (String × Value))
  deriving Repr, Inhabited

/-- The names that lead to a value, outermost first. -/
abbrev Key := List String

end ClassModel.Toml
