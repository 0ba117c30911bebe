import ClassModel.Inheritance.Order
import ClassModel.Model.Edit
import ClassModel.Note

/-! Copies of entities, and the links between originals carried over to them. -/

set_option autoImplicit false

namespace ClassModel

/-- Put a pair into a list that is in the order of its first components and has each of them
once. -/
def insertPair {Id : Type} (index : Id → Nat) (original copy : Id) : List (Id × Id) → List (Id × Id)
  | [] => [(original, copy)]
  | pair :: rest =>
    if index original < index pair.1 then (original, copy) :: pair :: rest
    else if index original = index pair.1 then (original, copy) :: rest
    else pair :: insertPair index original copy rest

/-- Originals and their copies, in the order of the originals. -/
abbrev EntityCopies := List (EntityId × EntityId)

namespace EntityCopies

def insert (copies : EntityCopies) (original copy : EntityId) : EntityCopies :=
  insertPair EntityId.index original copy copies

def ofPairs (pairs : List (EntityId × EntityId)) : EntityCopies :=
  pairs.foldl (fun copies pair => insert copies pair.1 pair.2) []

def copyOf? (copies : EntityCopies) (original : EntityId) : Option EntityId :=
  copies.lookup original

def originals (copies : EntityCopies) : List EntityId := copies.map Prod.fst

/-- The copy of an entity, or the entity itself when it has none. -/
def retarget (copies : EntityCopies) (id : EntityId) : EntityId := (copies.copyOf? id).getD id

end EntityCopies

/-- A copy without features and parents that remembers its original. -/
def Entity.blankCopy (original : Entity) (id : EntityId) : Entity :=
  { Entity.named original.name with
    role := original.role
    provenance := original.provenance
    capabilities := original.capabilities
    tags := original.tags
    cardinality := original.cardinality
    copyOf := some id }

namespace Model

/-! ## Generalization -/

/-- Give a copy the copies of its original's parents. -/
def copyParents (copies : EntityCopies) (model : Model) (original : EntityId) : Noted Model :=
  let entity := model.entityAt original
  let copy := copies.retarget original
  let withSuperclass : Noted Model :=
    match entity.superclass with
    | none => pure model
    | some parent =>
      match copies.copyOf? parent with
      | some parentCopy => pure (model.setSuperclass copy (some parentCopy))
      | none => .of model [.unresolved entity.name ("copy of superclass " ++ model.name parent)]
  (fun model => (entity.parents.filterMap copies.copyOf?).foldl (addParent · copy) model) <$>
    withSuperclass

/-- Carry generalization links over to the copies, superclasses first. -/
def copyInheritances (model : Model) (copies : EntityCopies) : Noted Model := do
  let order ← Noted.of (model.superclassFirstOrder copies.originals)
    (model.orderFindings copies.originals)
  order.foldlM (copyParents copies) model

/-! ## Associations -/

/-- A model and the associations copied in it so far, in the order of the originals. -/
structure AssociationCopying where
  model : Model
  copied : List (AssociationId × AssociationId) := []

/-- Copy an association to the copies of its ends. -/
def copyAssociation (copies : EntityCopies) (original : EntityId) (state : AssociationCopying)
    (role : AssociationId) : Noted AssociationCopying :=
  let association := state.model.associationAt role
  match copies.copyOf? association.entity2 with
  | none =>
    .of state [.unresolved (state.model.name original)
      ("association " ++ association.role2 ++ " to " ++ state.model.name association.entity2 ++
        " (no copy)")]
  | some farCopy =>
    pure
      { model := state.model.addAssociation
          { association with
            entity1 := copies.retarget original, entity2 := farCopy, inverse := none }
        copied := insertPair AssociationId.index role state.model.nextAssociation state.copied }

def copyAssociationsOf (copies : EntityCopies) (state : AssociationCopying) (original : EntityId) :
    Noted AssociationCopying :=
  (state.model.entityAt original).associations.foldlM (copyAssociation copies original) state

/-- Link the copies of two directions of one relationship. -/
def linkCopiedInverse (copied : List (AssociationId × AssociationId)) (model : Model)
    (pair : AssociationId × AssociationId) : Model :=
  match (model.associationAt pair.1).inverse.bind (fun inverse => copied.lookup inverse) with
  | some inverseCopy => model.linkInverse pair.2 inverseCopy
  | none => model

/-- Let the types of a copy's attributes refer to copies. -/
def retargetAttributes (copies : EntityCopies) (model : Model) (copy : EntityId) : Model :=
  (model.entityAt copy).attributes.foldl (fun model id =>
    model.modifyAttribute id fun declared =>
      { declared with type := declared.type.mapEntities copies.retarget }) model

/-- Carry the associations of the originals over to the copies, and count them. -/
def copyToTarget (model : Model) (copies : EntityCopies) : Noted (Model × Nat) := do
  let order ← Noted.of (model.superclassFirstOrder copies.originals)
    (model.orderFindings copies.originals)
  let state ← order.foldlM (copyAssociationsOf copies) { model }
  let linked := state.copied.foldl (linkCopiedInverse state.copied) state.model
  let retargeted := (copies.map Prod.snd).foldl (retargetAttributes copies) linked
  return (retargeted, state.copied.length)

end Model

end ClassModel
