/-! Options among the arguments of a command.

An option is spelled with two dashes and its name, or with one dash and a letter. A value follows
behind an equals sign, directly behind the letter, or as the next argument, which must not look
like an option itself. No option is given twice. Behind two dashes alone every argument is a word.
-/

set_option autoImplicit false

namespace ClassModel.CommandLine

structure OptionSpec where
  name : String
  letter : Option Char := none
  takesValue : Bool := false

inductive Argument where
  | word (text : String)
  | option (spec : OptionSpec) (attached : Option String)
  /-- Two dashes alone. -/
  | separator

/-- What stands before the first equals sign, and what stands behind it if there is one. -/
def splitAtEquals (cs : List Char) : List Char × Option (List Char) :=
  match cs.dropWhile (· != '=') with
  | [] => (cs, none)
  | _ :: value => (cs.takeWhile (· != '='), some value)

/-- What an argument is; none for an option that is not known. -/
def Argument.ofText? (known : List OptionSpec) (text : String) : Option Argument :=
  match text.toList with
  | ['-', '-'] => some .separator
  | '-' :: '-' :: cs =>
    let (name, value) := splitAtEquals cs
    (known.find? (·.name.toList == name)).map fun spec => .option spec (value.map String.ofList)
  | '-' :: letter :: cs =>
    (known.find? (·.letter == some letter)).map fun spec =>
      match cs with
      | [] => .option spec none
      | '=' :: value => .option spec (some (String.ofList value))
      | value => .option spec (some (String.ofList value))
  | _ => some (.word text)

/-- Whether an argument cannot be the value of an option before it. -/
def looksLikeOption (text : String) : Bool :=
  match text.toList with
  | '-' :: _ :: _ => true
  | _ => false

/-- An option that was given, and its value if it takes one. -/
structure GivenOption where
  name : String
  value : Option String

structure Arguments where
  options : List GivenOption := []
  words : List String := []
  /-- What stands behind the first word when only that one was wanted. -/
  rest : List String := []

namespace Arguments

def withOption (spec : OptionSpec) (value : Option String) (arguments : Arguments) : Arguments :=
  { arguments with options := ⟨spec.name, value⟩ :: arguments.options }

def withWord (text : String) (arguments : Arguments) : Arguments :=
  { arguments with words := text :: arguments.words }

/-- Sort arguments. With `upToWord` it ends behind the first word, and two dashes are refused. -/
def sort (known : List OptionSpec) (upToWord : Bool) : List String → Option Arguments
  | [] => some {}
  | text :: rest =>
    match Argument.ofText? known text with
    | none => none
    | some .separator => if upToWord then none else some { words := rest }
    | some (.word text) =>
      if upToWord then some { words := [text], rest }
      else (sort known upToWord rest).map (withWord text)
    | some (.option spec attached) =>
      if spec.takesValue then
        match attached, rest with
        | some value, rest => (sort known upToWord rest).map (withOption spec (some value))
        | none, value :: rest =>
          if looksLikeOption value then none
          else (sort known upToWord rest).map (withOption spec (some value))
        | none, [] => none
      else if attached.isSome then none
      else (sort known upToWord rest).map (withOption spec none)

def isSingle (arguments : Arguments) : Bool :=
  let names := arguments.options.map GivenOption.name
  names.length = names.eraseDups.length

def read? (known : List OptionSpec) (upToWord : Bool) (texts : List String) : Option Arguments :=
  (sort known upToWord texts).filter isSingle

def has (arguments : Arguments) (name : String) : Bool := arguments.options.any (·.name == name)

def value? (arguments : Arguments) (name : String) : Option String :=
  (arguments.options.find? (·.name == name)).bind GivenOption.value

end Arguments

end ClassModel.CommandLine
