import ClassModel.Model.Basic
import ClassModel.Diagnostic

/-! Edits of a model.

Every generalization link is kept at both of its ends: the parent lists the child exactly when the
child names the parent, as its superclass or as an additional parent.
-/

set_option autoImplicit false

namespace ClassModel.Model

/-! ## Features -/

def addEntity (model : Model) (name : String) : Model := model.insertEntity (.named name)

/-- Add an attribute to the list of an entity, whoever declares it. -/
def attachAttribute (model : Model) (entity : EntityId) (added : Attribute) : Model :=
  let extended := { model with attributes := model.attributes.push added }
  extended.modifyEntity entity fun owner =>
    { owner with attributes := owner.attributes ++ [model.nextAttribute] }

def addAttribute (model : Model) (owner : EntityId) (name : String) (type : TypeExpr)
    (flags : AttributeFlags) : Model :=
  model.attachAttribute owner { name, type, owner, flags }

def removeAttribute (model : Model) (entity : EntityId) (removed : AttributeId) : Model :=
  model.modifyEntity entity fun owner =>
    { owner with attributes := owner.attributes.filter (· != removed) }

/-- Add an association to the list of its first end. -/
def addAssociation (model : Model) (association : Association) : Model :=
  let extended := { model with associations := model.associations.push association }
  extended.modifyEntity association.entity1 fun owner =>
    { owner with associations := owner.associations ++ [model.nextAssociation] }

def associate (model : Model) (entity1 : EntityId) (role2 : String) (entity2 : EntityId)
    (card2 : Multiplicity) : Model :=
  model.addAssociation { entity1, entity2, role2, card2 }

def removeAssociation (model : Model) (entity : EntityId) (removed : AssociationId) : Model :=
  model.modifyEntity entity fun owner =>
    { owner with associations := owner.associations.filter (· != removed) }

/-- Make two associations the directions of one relationship. A near end without a name takes the
far name of the other direction. -/
def linkInverse (model : Model) (first second : AssociationId) : Model :=
  let firstRole := (model.associationAt first).role2
  let secondRole := (model.associationAt second).role2
  let linked := (model.modifyAssociation first ({ · with inverse := some second }))
    |>.modifyAssociation second ({ · with inverse := some first })
  (linked.modifyAssociation first fun association =>
      { association with role1 := association.role1.or (some secondRole) })
    |>.modifyAssociation second fun association =>
      { association with role1 := association.role1.or (some firstRole) }

/-- The place, in the owner's list, of an operation with the same signature. -/
def redeclaredAt? (model : Model) (operation : Operation) : Option Nat :=
  (model.entityAt operation.owner).operations.findIdx? fun listed =>
    (model.operationAt listed).sameSignature operation

/-- The warning that an operation takes the place of an earlier declaration. -/
def redeclarationWarning? (model : Model) (operation : Operation) : Option Diagnostic :=
  (model.redeclaredAt? operation).map fun _ =>
    .structuralWarning (model.name operation.owner) operation.name
      "operation signature redeclared; new declaration wins"

/-- Add an operation to its owner. A declaration of the same signature gives up its place. -/
def addOperation (model : Model) (operation : Operation) : Model :=
  let extended := { model with operations := model.operations.push operation }
  extended.modifyEntity operation.owner fun owner =>
    { owner with
      operations := match model.redeclaredAt? operation with
        | some place => owner.operations.set place model.nextOperation
        | none => owner.operations ++ [model.nextOperation] }

def addInvariant (model : Model) (rule : Invariant) : Model :=
  let extended := { model with invariants := model.invariants.push rule }
  extended.modifyEntity rule.owner fun owner =>
    { owner with invariants := owner.invariants ++ [model.nextInvariant] }

/-! ## Generalization -/

/-- List a child at a parent, once. -/
def listChild (model : Model) (parent child : EntityId) : Model :=
  model.modifyEntity parent fun entity =>
    if child ∈ entity.children then entity else { entity with children := entity.children ++ [child] }

def unlistChild (model : Model) (parent child : EntityId) : Model :=
  model.modifyEntity parent fun entity =>
    { entity with children := entity.children.filter (· != child) }

/-- Take away the primary parent. The link stays when it is an additional parent as well. -/
def clearSuperclass (model : Model) (child : EntityId) : Model :=
  match model.superclass child with
  | none => model
  | some old =>
    let cleared := model.modifyEntity child ({ · with superclass := none })
    if old ∈ (model.entityAt child).parents then cleared else cleared.unlistChild old child

def setSuperclass (model : Model) (child : EntityId) (parent : Option EntityId) : Model :=
  let changed := (model.clearSuperclass child).modifyEntity child ({ · with superclass := parent })
  match parent with
  | none => changed
  | some parent => changed.listChild parent child

/-- Add a parent that is not the primary one, unless it is a parent already. -/
def addParent (model : Model) (child parent : EntityId) : Model :=
  if parent ∈ model.allParents child then model
  else
    (model.modifyEntity child fun entity => { entity with parents := entity.parents ++ [parent] })
      |>.listChild parent child

/-- Cut the link between a parent and a child, at both ends. -/
def removeGeneralization (model : Model) (parent child : EntityId) : Model :=
  (model.unlistChild parent child).modifyEntity child fun entity =>
    { entity with
      superclass := entity.superclass.filter (· != parent)
      parents := entity.parents.filter (· != parent) }

end ClassModel.Model
