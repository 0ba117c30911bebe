import ClassModel.Toml.Quoted
import ClassModel.Toml.Scalar
import ClassModel.Toml.Statement

/-! Reading a TOML text.

Every statement stands on a line of its own, up to a comment. Line breaks and comments may also
stand between the items of a list and between the members of an inline table, and either may end
with a comma.
-/

set_option autoImplicit false

namespace ClassModel.Toml

/-! ## Gaps and keys -/

def skipLineBlanks (cs : List Char) : List Char := cs.dropWhile isLineBlank

/-- Skip blanks, line breaks and comments. A comment goes on to the end of its line. -/
def skipGap : (comment : Bool) → List Char → Option (List Char)
  | _, [] => some []
  | _, '\n' :: rest => skipGap false rest
  | _, '\r' :: '\n' :: rest => skipGap false rest
  | true, c :: rest => if isTextChar c then skipGap true rest else none
  | false, '#' :: rest => skipGap true rest
  | false, c :: rest => if isLineBlank c then skipGap false rest else some (c :: rest)

/-- Whether only a comment may follow on this line. -/
def atLineEnd : List Char → Bool
  | [] => true
  | '\n' :: _ => true
  | '\r' :: '\n' :: _ => true
  | '#' :: _ => true
  | _ => false

/-- The text from the end of the line on, where nothing else may follow on it. -/
def requireLineEnd (cs : List Char) : Option (List Char) :=
  let rest := skipLineBlanks cs
  if atLineEnd rest then some rest else none

def isKeyChar (c : Char) : Bool := c.isAlphanum || c = '_' || c = '-'

/-- Read one name of a key, bare or quoted on one line. -/
def readName (cs : List Char) : Option (String × List Char) :=
  match cs with
  | '"' :: rest => readQuoted .basic .text [] rest
  | '\x27' :: rest => readQuoted .literal .text [] rest
  | _ =>
    let name := cs.takeWhile isKeyChar
    if name.isEmpty then none else some (String.ofList name, cs.dropWhile isKeyChar)

/-- Read names joined by points, and the blanks around them. -/
def readKey : (fuel : Nat) → List Char → Option (Key × List Char)
  | 0, _ => none
  | fuel + 1, cs => do
    let (name, rest) ← readName (skipLineBlanks cs)
    match skipLineBlanks rest with
    | '.' :: rest =>
      let (names, rest) ← readKey fuel rest
      return (name :: names, rest)
    | rest => return ([name], rest)

/-! ## Values -/

mutual

/-- Read a value. Every call but that of an item takes a character, so twice the length of the text
is fuel enough; `nesting` is how many lists and tables may still be opened inside each other. -/
def readValue : (fuel nesting : Nat) → List Char → Option (Value × List Char)
  | 0, _, _ => none
  | fuel + 1, nesting, cs =>
    match cs, nesting with
    | '[' :: _, 0 => none
    | '\x7b' :: _, 0 => none
    | '[' :: rest, nesting + 1 =>
      (readItems fuel nesting rest).map fun (items, rest) => (.list items, rest)
    | '\x7b' :: rest, nesting + 1 =>
      match readAssignments fuel nesting rest with
      | some (assignments, rest) => (inlineTable? assignments).map (·, rest)
      | none => none
    | '"' :: rest, _ => (readText ('"' :: rest)).map fun (text, rest) => (.text text, rest)
    | '\x27' :: rest, _ => (readText ('\x27' :: rest)).map fun (text, rest) => (.text text, rest)
    | cs, _ => readWord cs

/-- Read the items of a list up to its bracket. -/
def readItems : (fuel nesting : Nat) → List Char → Option (List Value × List Char)
  | 0, _, _ => none
  | fuel + 1, nesting, cs =>
    match skipGap false cs with
    | none => none
    | some (']' :: rest) => some ([], rest)
    | some cs =>
      match readValue fuel nesting cs with
      | none => none
      | some (item, rest) =>
        match skipGap false rest with
        | some (',' :: rest) =>
          (readItems fuel nesting rest).map fun (items, rest) => (item :: items, rest)
        | some (']' :: rest) => some ([item], rest)
        | _ => none

/-- Read the assignments of an inline table up to its brace. -/
def readAssignments : (fuel nesting : Nat) → List Char → Option (List (Key × Value) × List Char)
  | 0, _, _ => none
  | fuel + 1, nesting, cs =>
    match skipGap false cs with
    | none => none
    | some ('\x7d' :: rest) => some ([], rest)
    | some cs =>
      match readAssignment fuel nesting cs with
      | none => none
      | some (assignment, rest) =>
        match skipGap false rest with
        | some (',' :: rest) =>
          (readAssignments fuel nesting rest).map fun (others, rest) => (assignment :: others, rest)
        | some ('\x7d' :: rest) => some ([assignment], rest)
        | _ => none

/-- Read a key, an equals sign and a value on the same line. -/
def readAssignment : (fuel nesting : Nat) → List Char → Option ((Key × Value) × List Char)
  | 0, _, _ => none
  | fuel + 1, nesting, cs =>
    match readKey fuel cs with
    | some (key, '=' :: rest) =>
      (readValue fuel nesting (skipLineBlanks rest)).map fun (value, rest) => ((key, value), rest)
    | _ => none

end

/-! ## Statements -/

/-- How deep lists and inline tables may be nested. -/
def nestingLimit : Nat := 80

def readStatement (fuel : Nat) (cs : List Char) : Option (Statement × List Char) := do
  match cs with
  | '[' :: '[' :: rest =>
    match ← readKey fuel rest with
    | (key, ']' :: ']' :: rest) => return (.nextHeader key, ← requireLineEnd rest)
    | _ => none
  | '[' :: rest =>
    match ← readKey fuel rest with
    | (key, ']' :: rest) => return (.header key, ← requireLineEnd rest)
    | _ => none
  | _ =>
    let ((key, value), rest) ← readAssignment fuel nestingLimit cs
    return (.assignment key value, ← requireLineEnd rest)

def readStatements : (fuel : Nat) → List Char → Option (List Statement)
  | 0, _ => none
  | fuel + 1, cs =>
    match skipGap false cs with
    | none => none
    | some [] => some []
    | some cs =>
      match readStatement (2 * cs.length + 2) cs with
      | none => none
      | some (statement, rest) => (readStatements fuel rest).map (statement :: ·)

/-- The statements of a text. A byte order mark before them is passed over. -/
def statements? (text : String) : Option (List Statement) :=
  let cs := match text.toList with
    | '\ufeff' :: rest => rest
    | cs => cs
  readStatements (cs.length + 1) cs

def ofText? (text : String) : Option Value := do tableOf? (← statements? text)

end ClassModel.Toml
