import ClassModel.Toml.Tree

/-! The statements of a TOML text, and the table that they make.

A header opens the table that the assignments behind it belong to. Before the first header they
belong to the table of the whole text.
-/

set_option autoImplicit false

namespace ClassModel.Toml

inductive Statement where
  | header (key : Key)
  /-- The header of the next table of a list. -/
  | nextHeader (key : Key)
  | assignment (key : Key) (value : Value)

/-- The table of the text so far, and the header that is open. -/
structure Draft where
  members : Members := []
  header : Key := []

def Draft.run (draft : Draft) : Statement → Option Draft
  | .header key => (openAt openTable key draft.members).map fun members => ⟨members, key⟩
  | .nextHeader key => (openAt openNext key draft.members).map fun members => ⟨members, key⟩
  | .assignment key value =>
    (editAt .implied (assign key value) draft.header .defined draft.members).map
      fun members => ⟨members, draft.header⟩

/-- The table that statements make, unless one of them contradicts those before it. -/
def tableOf? (statements : List Statement) : Option Value :=
  (statements.foldlM Draft.run {}).map fun draft => .table (finishMembers draft.members)

end ClassModel.Toml
