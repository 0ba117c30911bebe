import ClassModel.Decimal.Notation
import ClassModel.Toml.Reader

/-! Writing statements as TOML text.

Every header but one at the very start has an empty line before it. A list that is not empty has a
line for each of its items.
-/

set_option autoImplicit false

namespace ClassModel.Toml

/-- A name is bare when it can be. -/
def writeName (name : String) : String :=
  if name.toList.all isKeyChar && !name.isEmpty then name else quoteText name

def writeKey (key : Key) : String := ".".intercalate (key.map writeName)

mutual

def Value.write : Value → String
  | .text value => quoteText value
  | .integer value => toString value
  | .real value => Decimal.plain value
  | .boolean value => if value then "true" else "false"
  | .moment literal => literal
  | .list [] => "[]"
  | .list (first :: rest) =>
    "[\n" ++ String.join (writeItems (first :: rest)) ++ "]"
  | .table [] => "\x7b\x7d"
  | .table (first :: rest) => "\x7b " ++ ", ".intercalate (writeMembers (first :: rest)) ++ " \x7d"

def writeItems : List Value → List String
  | [] => []
  | item :: rest => ("    " ++ item.write ++ ",\n") :: writeItems rest

def writeMembers : List (String × Value) → List String
  | [] => []
  | (name, value) :: rest => (writeName name ++ " = " ++ value.write) :: writeMembers rest

end

def Statement.write : Statement → String
  | .header key => "[" ++ writeKey key ++ "]\n"
  | .nextHeader key => "[[" ++ writeKey key ++ "]]\n"
  | .assignment key value => writeKey key ++ " = " ++ value.write ++ "\n"

def Statement.isHeader : Statement → Bool
  | .assignment .. => false
  | _ => true

def writeFurther (statements : List Statement) : String :=
  String.join (statements.map fun statement =>
    if statement.isHeader then "\n" ++ statement.write else statement.write)

def write : List Statement → String
  | [] => ""
  | first :: rest => first.write ++ writeFurther rest

end ClassModel.Toml
