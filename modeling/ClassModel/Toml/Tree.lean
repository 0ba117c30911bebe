import ClassModel.Toml.Value

/-! Tables under construction.

A table remembers how it came about, because that decides what may still be added to it. A table
with a header of its own is closed to dotted keys, a table made by dotted keys gets no header, and a
value is closed to everything.
-/

set_option autoImplicit false

namespace ClassModel.Toml

/-- How a table came about. -/
inductive Origin where
  /-- On the way to the table of a header. -/
  | implied
  | dotted
  | defined
  deriving DecidableEq, Repr

inductive Node where
  | value (value : Value)
  | table (origin : Origin) (members : List (String × Node))
  /-- A list of tables, each with a header of its own. -/
  | tables (earlier : List (List (String × Node))) (last : List (String × Node))

abbrev Members := List (String × Node)

/-- Put a node under a name, in the place of the one that is there. -/
def Members.put (name : String) (node : Node) : Members → Members
  | [] => [(name, node)]
  | (other, found) :: rest =>
    if other = name then (name, node) :: rest else (other, found) :: Members.put name node rest

/-- A change to a table, which may refuse it. -/
abbrev TableEdit := Origin → Members → Option Members

/-- Change the table a key leads to. Tables that are missing on the way are made, and of a list of
tables the last one is meant. -/
def editAt (through : Origin) (edit : TableEdit) : Key → TableEdit
  | [], origin, members => edit origin members
  | name :: key, _, members =>
    match members.lookup name with
    | none => (editAt through edit key through []).map fun inner =>
        members.put name (.table through inner)
    | some (.table origin inner) =>
      if through = .dotted && origin = .defined then none
      else (editAt through edit key origin inner).map fun inner =>
        members.put name (.table origin inner)
    | some (.tables earlier last) => (editAt through edit key .defined last).map fun last =>
        members.put name (.tables earlier last)
    | some (.value _) => none

/-- Give a name that is still free its value. -/
def putValue (dotted : Bool) (name : String) (value : Value) : TableEdit := fun origin members =>
  if dotted && origin != .dotted then none
  else
    match members.lookup name with
    | none => some (members.put name (.value value))
    | some _ => none

/-- Give a key its value; all names but the last lead through dotted tables. -/
def assign (key : Key) (value : Value) : TableEdit := fun origin members =>
  match key.getLast? with
  | none => none
  | some name =>
    editAt .dotted (putValue (1 < key.length) name value) key.dropLast origin members

def openTable (name : String) : TableEdit := fun _ members =>
  match members.lookup name with
  | none => some (members.put name (.table .defined []))
  | some (.table .implied inner) => some (members.put name (.table .defined inner))
  | some _ => none

def openNext (name : String) : TableEdit := fun _ members =>
  match members.lookup name with
  | none => some (members.put name (.tables [] []))
  | some (.tables earlier last) => some (members.put name (.tables (earlier ++ [last]) []))
  | some _ => none

def openAt (opening : String → TableEdit) (key : Key) (members : Members) : Option Members :=
  match key.getLast? with
  | none => none
  | some name => editAt .implied (opening name) key.dropLast .defined members

/-! ## Finished tables -/

mutual

def Node.finish : Node → Value
  | .value value => value
  | .table _ members => .table (finishMembers members)
  | .tables earlier last => .list (finishRows earlier ++ [.table (finishMembers last)])

def finishMembers : List (String × Node) → List (String × Value)
  | [] => []
  | (name, node) :: rest => (name, node.finish) :: finishMembers rest

def finishRows : List (List (String × Node)) → List Value
  | [] => []
  | members :: rest => .table (finishMembers members) :: finishRows rest

end

/-- The table of a value written inline. -/
def inlineTable? (assignments : List (Key × Value)) : Option Value :=
  (assignments.foldlM (fun members entry => assign entry.1 entry.2 .defined members) []).map
    fun members => .table (finishMembers members)

end ClassModel.Toml
