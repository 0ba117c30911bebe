import ClassModel.Model.Edit
import ClassModel.Note

/-! Edits as data.

A script is a sequence of edits and messages. It may end in an error; then everything before the
error has been done.
-/

set_option autoImplicit false

namespace ClassModel

/-- One change of a model. Every model is built from the empty one by edits. -/
inductive Edit where
  | insertEntity (entity : Entity)
  | attachAttribute (entity : EntityId) (added : Attribute)
  | removeAttribute (entity : EntityId) (removed : AttributeId)
  | addAssociation (added : Association)
  | removeAssociation (entity : EntityId) (removed : AssociationId)
  | linkInverse (first second : AssociationId)
  | addOperation (added : Operation)
  | addInvariant (added : Invariant)
  | setSuperclass (child : EntityId) (parent : Option EntityId)
  | addParent (child parent : EntityId)
  | removeGeneralization (parent child : EntityId)

namespace Edit

def apply (model : Model) : Edit → Model
  | .insertEntity entity => model.insertEntity entity
  | .attachAttribute entity added => model.attachAttribute entity added
  | .removeAttribute entity removed => model.removeAttribute entity removed
  | .addAssociation added => model.addAssociation added
  | .removeAssociation entity removed => model.removeAssociation entity removed
  | .linkInverse first second => model.linkInverse first second
  | .addOperation added => model.addOperation added
  | .addInvariant added => model.addInvariant added
  | .setSuperclass child parent => model.setSuperclass child parent
  | .addParent child parent => model.addParent child parent
  | .removeGeneralization parent child => model.removeGeneralization parent child

def findings (model : Model) : Edit → List Diagnostic
  | .addOperation added => (model.redeclarationWarning? added).toList
  | _ => []

end Edit

/-- What is said of a stereotype that is kept as a tag. -/
def Stereotype.message? (entity : String) : Stereotype → Option Message
  | .tag word => some (.untypedStereotype entity word)
  | _ => none

inductive Action where
  | edit (edit : Edit)
  | say (message : Message)

structure Script (Error : Type) where
  actions : List Action := []
  failure : Option Error := none

namespace Script

variable {Error α : Type}

def nothing : Script Error := {}

def edit (edit : Edit) : Script Error := { actions := [.edit edit] }

def say (messages : List Message) : Script Error := { actions := messages.map .say }

def fail (error : Error) : Script Error := { failure := some error }

/-- One script after another; an error of the first is the end. -/
def andThen (first second : Script Error) : Script Error :=
  match first.failure with
  | some _ => first
  | none => ⟨first.actions ++ second.actions, second.failure⟩

/-- The scripts of the items of a list, one after another, up to the first error. -/
def ofList (script : α → Script Error) : List α → Script Error
  | [] => nothing
  | item :: rest => (script item).andThen (ofList script rest)

/-- Go on with a value, or end with its error. -/
def withValue (value : Except Error α) (next : α → Script Error) : Script Error :=
  match value with
  | .ok value => next value
  | .error error => fail error

def edits (script : Script Error) : List Edit :=
  script.actions.filterMap fun
    | .edit edit => some edit
    | .say _ => none

end Script

/-- The model after some actions, and the notes made on the way. -/
def Model.perform (model : Model) : List Action → Noted Model
  | [] => pure model
  | .edit edit :: rest => do
    let changed ← Noted.of (edit.apply model) (edit.findings model)
    changed.perform rest
  | .say message :: rest => do
    Noted.say message
    model.perform rest

/-- The messages of a script do not change a model; its edits do. -/
theorem Model.value_perform (model : Model) (actions : List Action) :
    (model.perform actions).value =
      (⟨actions, none⟩ : Script Unit).edits.foldl Edit.apply model := by
  induction actions generalizing model with
  | nil => rfl
  | cons action rest ih =>
    cases action with
    | edit edit => exact ih _
    | say message => exact ih _

end ClassModel
