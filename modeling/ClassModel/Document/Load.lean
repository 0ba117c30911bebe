import ClassModel.Document.Basic
import ClassModel.Model.Script

/-! Loading a document into a model.

The entities come first, so that every name can be resolved; then generalization, features,
associations, and last the inverses, which are found by the name of their far role. Where a name is
used twice in a document the later entity has it.
-/

set_option autoImplicit false

namespace ClassModel.Document

/-! ## Names -/

/-- The entities of a document in a model that numbers them from `first` on. -/
structure Scope where
  names : List String
  first : EntityId

namespace Scope

/-- The last entity of this name. -/
def resolve? (scope : Scope) (name : String) : Option EntityId :=
  (scope.names.reverse.findIdx? (· == name)).map fun fromEnd =>
    ⟨scope.first.index + (scope.names.length - 1 - fromEnd)⟩

def resolve (scope : Scope) (context name : String) : Except DocumentError EntityId :=
  match scope.resolve? name with
  | some id => .ok id
  | none => .error (.unknownEntity context name)

def readType (scope : Scope) (context text : String) : Except DocumentError TypeExpr :=
  (TypeExpr.parse scope.resolve? text).mapError (.invalidType context)

end Scope

def readMultiplicity (context text : String) : Except DocumentError Multiplicity :=
  match Multiplicity.parse? text with
  | some multiplicity => .ok multiplicity
  | none => .error (.invalidMultiplicity context text)

/-- Set every named flag that is known, in order. -/
def flagsOf {Flags : Type} (set? : Flags → String → Option Flags) (start : Flags)
    (names : List String) : Flags :=
  names.foldl (fun flags name => (set? flags name).getD flags) start

/-- The flag names that are not known, as messages. -/
def flagMessages {Flags : Type} (set? : Flags → String → Option Flags) (start : Flags)
    (context element : String) (names : List String) : List Message :=
  (names.filter fun name => (set? start name).isNone).map (.ignoredFlag context element)

def operationFlag? (flags : OperationFlags) (name : String) : Option OperationFlags :=
  match Text.lowercase name with
  | "query" => some { flags with query := true }
  | "abstract" => some { flags with isAbstract := true }
  | "static" => some { flags with isStatic := true }
  | _ => none

/-! ## Entities and generalization -/

namespace EntityDecl

/-- The entity without its features and parents. -/
def toEntity (decl : EntityDecl) (provenance : Provenance) : Entity :=
  let entity := { Entity.named decl.name with provenance }
  let entity := decl.stereotypes.foldl Entity.applyStereotype entity
  { entity with cardinality := decl.cardinality.bind Cardinality.parse? }

def messages (decl : EntityDecl) : List Message :=
  let untyped := decl.stereotypes.filterMap fun text =>
    (Stereotype.ofText text).message? decl.name
  let unreadable := (decl.cardinality.filter fun text => (Cardinality.parse? text).isNone).map
    (.unreadableCardinality decl.name)
  untyped ++ unreadable.toList

def creation (provenance : Provenance) (decl : EntityDecl) : Script DocumentError :=
  (Script.say decl.messages).andThen (.edit (.insertEntity (decl.toEntity provenance)))

/-- The entity that a declaration describes: the last one of its name. -/
def subject (scope : Scope) (decl : EntityDecl) : EntityId :=
  (scope.resolve? decl.name).getD scope.first

def generalization (scope : Scope) (decl : EntityDecl) : Script DocumentError :=
  let child := decl.subject scope
  let superclass : Script DocumentError := match decl.superclass with
    | none => .nothing
    | some name => Script.withValue (scope.resolve decl.name name) fun parent =>
        .edit (.setSuperclass child (some parent))
  superclass.andThen <| Script.ofList (fun name =>
    Script.withValue (scope.resolve decl.name name) fun parent =>
      .edit (.addParent child parent)) decl.parents

end EntityDecl

/-! ## Features -/

def AttributeDecl.script (scope : Scope) (entity : EntityId) (entityName : String)
    (decl : AttributeDecl) : Script DocumentError :=
  let context := entityName ++ "." ++ decl.name
  Script.withValue (scope.readType context decl.type) fun type =>
    let flags := flagsOf AttributeFlags.set? {} decl.flags
    (Script.edit (.attachAttribute entity { name := decl.name, type, flags, owner := entity })).andThen
      (.say (flagMessages AttributeFlags.set? {} context "attribute" decl.flags))

def OperationDecl.toOperation (scope : Scope) (entity : EntityId) (context : String)
    (decl : OperationDecl) : Except DocumentError Operation := do
  let params ← decl.params.mapM fun param => do
    let type ← scope.readType context param.type
    return { name := param.name, type : Parameter }
  let result ← decl.result.mapM (scope.readType context)
  let flags := flagsOf operationFlag? {} decl.flags
  return { name := decl.name, params, result, flags, owner := entity }

def OperationDecl.script (scope : Scope) (entity : EntityId) (entityName : String)
    (decl : OperationDecl) : Script DocumentError :=
  let context := entityName ++ "." ++ decl.name
  Script.withValue (decl.toOperation scope entity context) fun operation =>
    (Script.say ((decl.flags.filter fun name => (operationFlag? {} name).isNone).map fun name =>
        .ignoredFlag context "operation" (Text.lowercase name))).andThen
      (.edit (.addOperation operation))

def InvariantDecl.script (entity : EntityId) (decl : InvariantDecl) : Script DocumentError :=
  .edit (.addInvariant
    { antecedent := decl.antecedent, consequent := decl.consequent, owner := entity,
      isLocal := decl.isLocal })

def EntityDecl.features (scope : Scope) (decl : EntityDecl) : Script DocumentError :=
  let entity := decl.subject scope
  (Script.ofList (AttributeDecl.script scope entity decl.name) decl.attributes).andThen <|
    (Script.ofList (OperationDecl.script scope entity decl.name) decl.operations).andThen <|
      Script.ofList (InvariantDecl.script entity) decl.invariants

/-! ## Associations -/

namespace AssociationDecl

def context (decl : AssociationDecl) : String := decl.entity1 ++ "." ++ decl.role2

def script (scope : Scope) (decl : AssociationDecl) : Script DocumentError :=
  Script.withValue (scope.resolve decl.context decl.entity1) fun entity1 =>
  Script.withValue (scope.resolve decl.context decl.entity2) fun entity2 =>
    (Script.say (flagMessages AssociationFlags.set? {} decl.context "association" decl.flags)).andThen <|
    Script.withValue (readMultiplicity decl.context decl.card1) fun card1 =>
    Script.withValue (readMultiplicity decl.context decl.card2) fun card2 =>
      .edit (.addAssociation
        { entity1, entity2, role1 := decl.role1, role2 := decl.role2, card1, card2,
          flags := flagsOf AssociationFlags.set? {} decl.flags })

/-- The last association of a document that leads from an entity through a role. -/
def withRole? (scope : Scope) (first : AssociationId) (decls : List AssociationDecl)
    (entity : EntityId) (role : String) : Option AssociationId :=
  let matching := decls.reverse.findIdx? fun decl =>
    scope.resolve? decl.entity1 == some entity && decl.role2 == role
  matching.map fun fromEnd => ⟨first.index + (decls.length - 1 - fromEnd)⟩

/-- The link to the association that runs back, when the declaration names one. -/
def inverseLink (scope : Scope) (first : AssociationId) (decls : List AssociationDecl)
    (decl : AssociationDecl) : Script DocumentError :=
  match decl.inverse with
  | none => .nothing
  | some role =>
    Script.withValue (scope.resolve decl.context decl.entity1) fun entity1 =>
    Script.withValue (scope.resolve decl.context decl.entity2) fun entity2 =>
      match withRole? scope first decls entity1 decl.role2, withRole? scope first decls entity2 role with
      | some forward, some backward => .edit (.linkInverse forward backward)
      | _, _ => .fail (.unknownEntity decl.context (decl.entity2 ++ "." ++ role))

end AssociationDecl

/-! ## Documents -/

def scopeIn (document : Document) (model : Model) : Scope :=
  ⟨document.entities.map EntityDecl.name, model.nextEntity⟩

/-- Everything that loading a document into a model does. -/
def script (document : Document) (model : Model) (provenance : Provenance) :
    Script DocumentError :=
  let scope := document.scopeIn model
  (Script.ofList (EntityDecl.creation provenance) document.entities).andThen <|
    (Script.ofList (EntityDecl.generalization scope) document.entities).andThen <|
    (Script.ofList (EntityDecl.features scope) document.entities).andThen <|
    (Script.ofList (AssociationDecl.script scope) document.associations).andThen <|
    (Script.ofList (AssociationDecl.inverseLink scope model.nextAssociation document.associations)
      document.associations).andThen <|
    .say [.loaded document.entities.length document.associations.length]

/-- The entities that a document has in a model it is loaded into, in document order. -/
def created (document : Document) (model : Model) : List EntityId :=
  (List.range document.entities.length).map fun place => ⟨model.nextEntity.index + place⟩

end ClassModel.Document

namespace ClassModel

/-- The model after loading, the notes, and the created entities or the error that ended it. -/
structure Loading where
  model : Model
  notes : List Note
  result : Except DocumentError (List EntityId)

def Model.load (model : Model) (document : Document) (provenance : Provenance) : Loading :=
  let script := document.script model provenance
  let performed := model.perform script.actions
  { model := performed.value
    notes := performed.notes
    result := match script.failure with
      | some error => .error error
      | none => .ok (document.created model) }

end ClassModel
