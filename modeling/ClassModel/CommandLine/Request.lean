import ClassModel.CommandLine.Options

/-! What a command line asks for.

Three options may stand before or behind the name of the command; behind it they count more.
-/

set_option autoImplicit false

namespace ClassModel.CommandLine

structure PathRequest where
  depth : Option Nat
  allPaths : Bool
  json : Bool

inductive Command where
  | features (model entity : String) (request : PathRequest)
  | subclasses (model entity : String) (leavesOnly : Bool)
  /-- Flattened copies of all entities or of one. -/
  | flatten (model : String) (entity : Option String) (request : PathRequest)
  /-- Match two models; `strict` overrides the settings. -/
  | matchModels (source target : String) (strict : Option Bool) (csv : Option String) (json : Bool)
  | config

structure Request where
  command : Command
  config : Option String
  logLevel : Option String
  plain : Bool

namespace Request

def sharedOptions : List OptionSpec := [
  { name := "config", takesValue := true },
  { name := "log-level", takesValue := true },
  { name := "no-color" }]

def pathOptions : List OptionSpec := [
  { name := "depth", letter := some 'd', takesValue := true },
  { name := "all-paths" },
  { name := "json" }]

/-- The options of a command by its name; none for an unknown command. -/
def optionsOf? : String → Option (List OptionSpec)
  | "features" => some pathOptions
  | "subclasses" => some [{ name := "leaves" }]
  | "flatten" => some pathOptions
  | "match" => some [{ name := "strict" }, { name := "lenient" },
      { name := "csv", takesValue := true }, { name := "json" }]
  | "config" => some []
  | _ => none

/-! ## Values -/

/-- A whole number of at most 64 bits, in decimal digits, with or without a plus sign. -/
def count? (text : String) : Option Nat :=
  let digits := match text.toList with
    | '+' :: rest => rest
    | cs => cs
  if digits.isEmpty || !digits.all Char.isDigit then none
  else
    let value := digits.foldl (fun total c => total * 10 + (c.toNat - '0'.toNat)) 0
    if value < Nat.pow 2 64 then some value else none

/-- A path is never empty. -/
def path? (text : String) : Option String := if text.isEmpty then none else some text

/-- Read the value of an option if it is given. -/
def valueOf? {α : Type} (read : String → Option α) (arguments : Arguments) (name : String) :
    Option (Option α) :=
  match arguments.value? name with
  | some text => (read text).map some
  | none => some none

def pathRequest? (arguments : Arguments) : Option PathRequest := do
  return { depth := ← valueOf? count? arguments "depth"
           allPaths := arguments.has "all-paths"
           json := arguments.has "json" }

/-! ## Commands -/

/-- The command of this name with these words and options. -/
def command? (name : String) (arguments : Arguments) : Option Command := do
  match name, arguments.words with
  | "features", [model, entity] =>
    return .features (← path? model) entity (← pathRequest? arguments)
  | "subclasses", [model, entity] =>
    return .subclasses (← path? model) entity (arguments.has "leaves")
  | "flatten", [model] => return .flatten (← path? model) none (← pathRequest? arguments)
  | "flatten", [model, entity] =>
    return .flatten (← path? model) (some entity) (← pathRequest? arguments)
  | "match", [source, target] =>
    let strict ← match arguments.has "strict", arguments.has "lenient" with
      | true, true => none
      | true, false => some (some true)
      | false, true => some (some false)
      | false, false => some none
    return .matchModels (← path? source) (← path? target) strict
      (← valueOf? path? arguments "csv") (arguments.has "json")
  | "config", [] => return .config
  | _, _ => none

/-- What the arguments of the program ask for; none when they ask for nothing it does. -/
def ofArguments? (texts : List String) : Option Request := do
  let before ← Arguments.read? sharedOptions true texts
  let name ← before.words.head?
  let behind ← Arguments.read? (sharedOptions ++ (← optionsOf? name)) false before.rest
  let command ← command? name behind
  return { command
           config := (← valueOf? path? behind "config").or (← valueOf? path? before "config")
           logLevel := (behind.value? "log-level").or (before.value? "log-level")
           plain := before.has "no-color" || behind.has "no-color" }

end Request

end ClassModel.CommandLine
