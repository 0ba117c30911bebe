/-! Files by their paths.

What a command does depends on files only through three questions, so that it can be carried out on
a disk or in a directory that is a value.
-/

set_option autoImplicit false

namespace ClassModel.CommandLine

/-- A way to look at files and to write them. -/
class Files (m : Type → Type) where
  /-- Whether there is a file or directory at a path. -/
  isPresent : String → m Bool
  /-- The text of a file, if it can be read. -/
  readText : String → m (Option String)
  /-- Write a file, and say whether that was possible. -/
  writeText : String → String → m Bool

/-- A directory with files, each under the names on the way to it. -/
structure Directory where
  root : String
  files : List (List String × String)

namespace Directory

/-- The names a path goes through. Empty names and single points go nowhere, two points lead
back. -/
def names (path : String) : List String :=
  (path.splitOn "/").foldl (fun way name =>
    if name = "" || name = "." then way
    else if name = ".." then way.dropLast
    else way ++ [name]) []

/-- The place of a path in the directory; none for an absolute path that leads elsewhere. -/
def place? (directory : Directory) (path : String) : Option (List String) :=
  let root := names directory.root
  let way := names path
  if root.isPrefixOf way then some (way.drop root.length)
  else if path.startsWith "/" then none
  else some way

def ofTexts (root : String) (files : List (String × String)) : Directory :=
  ⟨root, files.map fun file => (names file.1, file.2)⟩

def textAt? (directory : Directory) (place : List String) : Option String :=
  directory.files.lookup place

/-- Whether a place is a directory: the root, or on the way to a file. -/
def isDirectory (directory : Directory) (place : List String) : Bool :=
  place.isEmpty || directory.files.any fun file =>
    place.length < file.1.length && place.isPrefixOf file.1

def read? (directory : Directory) (path : String) : Option String :=
  if path.endsWith "/" then none else (directory.place? path).bind directory.textAt?

/-- Put a file into the directory. Its own directory must be there already. -/
def write? (directory : Directory) (path text : String) : Option Directory :=
  match directory.place? path with
  | none => none
  | some place =>
    if path.endsWith "/" || directory.isDirectory place || !directory.isDirectory place.dropLast then
      none
    else some { directory with
      files := (place, text) :: directory.files.filter fun file => file.1 != place }

end Directory

instance : Files (StateM Directory) where
  isPresent path := do
    let directory ← get
    return match directory.place? path with
      | some place => (directory.textAt? place).isSome || directory.isDirectory place
      | none => false
  readText path := do return (← get).read? path
  writeText path text := do
    match (← get).write? path text with
    | some directory =>
      set directory
      return true
    | none => return false

end ClassModel.CommandLine
