import ClassModel.Inheritance.Chain

/-! Features defined for an entity: its own, then those of each primary ancestor.

A feature whose name is declared again further down is kept; the lower declaration comes first and
wins wherever names are looked up. Each such redeclaration is reported for the lowest entity that
declares the name.
-/

set_option autoImplicit false

namespace ClassModel.Model

def definedAttributes (model : Model) (id : EntityId) : List AttributeId :=
  (model.superclassChain id).flatMap fun entity => (model.entityAt entity).attributes

def definedAssociations (model : Model) (id : EntityId) : List AssociationId :=
  (model.superclassChain id).flatMap fun entity => (model.entityAt entity).associations

def definedOperations (model : Model) (id : EntityId) : List OperationId :=
  (model.superclassChain id).flatMap fun entity => (model.entityAt entity).operations

def definedInvariants (model : Model) (id : EntityId) : List InvariantId :=
  (model.superclassChain id).flatMap fun entity => (model.entityAt entity).invariants

/-! ## Redeclarations -/

structure Declaration where
  declarer : EntityId
  name : String

/-- The names declared along a chain, in the order of the defined features. -/
def declarations (model : Model) (namesOf : Entity → List String) (id : EntityId) :
    List Declaration :=
  (model.superclassChain id).flatMap fun entity =>
    (namesOf (model.entityAt entity)).map (Declaration.mk entity)

/-- A warning for each declaration of a name that another entity declares further down. -/
def redeclarations (model : Model) (found : List Declaration) : List Diagnostic :=
  found.filterMap fun declaration =>
    match found.find? (·.name == declaration.name) with
    | some lowest =>
      if lowest.declarer = declaration.declarer then none
      else some (.structuralWarning (model.name lowest.declarer) declaration.name
        ("redeclares feature inherited from " ++ model.name declaration.declarer))
    | none => none

def definedFindings (model : Model) (namesOf : Entity → List String) (id : EntityId) :
    List Diagnostic :=
  model.chainFindings id ++ model.redeclarations (model.declarations namesOf id)

def attributeNames (model : Model) (entity : Entity) : List String :=
  entity.attributes.map fun id => (model.attributeAt id).name

def associationNames (model : Model) (entity : Entity) : List String :=
  entity.associations.map fun id => (model.associationAt id).role2

def operationNames (model : Model) (entity : Entity) : List String :=
  entity.operations.map fun id => (model.operationAt id).name

def attributeFindings (model : Model) (id : EntityId) : List Diagnostic :=
  model.definedFindings model.attributeNames id

def associationFindings (model : Model) (id : EntityId) : List Diagnostic :=
  model.definedFindings model.associationNames id

def operationFindings (model : Model) (id : EntityId) : List Diagnostic :=
  model.definedFindings model.operationNames id

/-! ## Keys -/

/-- The first identity among the defined attributes. -/
def primaryKey? (model : Model) (id : EntityId) : Option AttributeId :=
  (model.definedAttributes id).find? fun key => (model.attributeAt key).flags.identity

/-- The primary key, or else the first unique attribute. -/
def uniqueKey? (model : Model) (id : EntityId) : Option AttributeId :=
  (model.primaryKey? id).or
    ((model.definedAttributes id).find? fun key => (model.attributeAt key).flags.unique)

def keyFindings (model : Model) (id : EntityId) (key : Option AttributeId) : List Diagnostic :=
  model.attributeFindings id ++
    if key.isNone then [.noKeyAttribute (model.name id)] else []

end ClassModel.Model
