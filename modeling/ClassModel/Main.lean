import ClassModel.CommandLine.Program

/-! The program: files are on the disk, and what was found goes to the standard output. -/

set_option autoImplicit false

namespace ClassModel.CommandLine

instance : Files IO where
  isPresent path := do
    try
      let _ ← IO.FS.Handle.mk path .read
      return true
    catch _ => return false
  readText path := do
    try return some (← IO.FS.readFile path)
    catch _ => return none
  writeText path text := do
    try
      IO.FS.writeFile path text
      return true
    catch _ => return false

/-- A variable of the environment as a switch, which only a zero turns off. -/
def switch? (name : String) : IO (Option Bool) := do
  return (← IO.getEnv name).map (· != "0")

/-- Styles are shown on a terminal, unless the environment asks for something else. -/
def wantsColor : IO Bool := do
  if (← switch? "CLICOLOR_FORCE") = some true then return true
  if (← switch? "NO_COLOR").isSome then return false
  return (← switch? "CLICOLOR").getD true && (← (← IO.getStdout).isTty)

def configDirectory : IO (Option String) := do
  match ← IO.getEnv "XDG_CONFIG_HOME" with
  | some directory => if directory.startsWith "/" then return some directory else homeDirectory
  | none => homeDirectory
where
  homeDirectory : IO (Option String) := do return (← IO.getEnv "HOME").map (· ++ "/.config")

def Outcome.report : Outcome → IO UInt32
  | .refused => do
    IO.eprintln "error: the arguments are not understood"
    return 2
  | .failed failure => do
    IO.eprintln ("Error: " ++ failure.message)
    return 1
  | .finished output => do
    IO.print output
    return 0

def start (arguments : List String) : IO UInt32 := do
  let environment : Environment :=
    { color := ← wantsColor, configDirectory := ← configDirectory }
  (← (run environment arguments : IO Outcome)).report

end ClassModel.CommandLine

def main (arguments : List String) : IO UInt32 := ClassModel.CommandLine.start arguments
