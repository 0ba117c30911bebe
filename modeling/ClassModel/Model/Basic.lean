import ClassModel.Entity
import ClassModel.Association
import ClassModel.Operation

/-! The model: everything there is, by number.

Elements are only added. What an entity owns is a list of numbers, so taking something away from
an entity leaves the element itself in place. Asking for a number that does not exist gives a
blank element. Entities are found by name through an index, which is written when they are added.
-/

set_option autoImplicit false

namespace ClassModel

/-- Entities by name. A name stays with the entity that it is entered for first. -/
structure NameIndex where
  pairs : List (String × EntityId) := []
  deriving DecidableEq, Repr

namespace NameIndex

def find? (index : NameIndex) (name : String) : Option EntityId := index.pairs.lookup name

def insertIfNew (index : NameIndex) (name : String) (id : EntityId) : NameIndex :=
  match index.find? name with
  | some _ => index
  | none => ⟨(name, id) :: index.pairs⟩

theorem find?_insertIfNew (index : NameIndex) (name asked : String) (id : EntityId) :
    (index.insertIfNew name id).find? asked =
      (index.find? asked).or (if name = asked then some id else none) := by
  unfold insertIfNew
  cases found : index.find? name with
  | some first =>
    by_cases same : name = asked
    · rw [← same, found, Option.some_or]
    · rw [if_neg same, Option.or_none]
  | none =>
    have missing : index.pairs.lookup name = none := found
    simp only [find?, List.lookup_cons]
    by_cases same : name = asked
    · rw [← same, beq_self_eq_true, if_pos rfl, missing, Option.none_or]
    · rw [if_neg same, Option.or_none, beq_eq_false_iff_ne.mpr (Ne.symm same)]

end NameIndex

structure Model where
  entities : Array Entity := #[]
  attributes : Array Attribute := #[]
  associations : Array Association := #[]
  operations : Array Operation := #[]
  invariants : Array Invariant := #[]
  names : NameIndex := {}
  deriving DecidableEq, Repr

namespace Model

def empty : Model := {}

/-! ## Looking up -/

def entityAt (model : Model) (id : EntityId) : Entity := model.entities[id.index]?.getD default

def attributeAt (model : Model) (id : AttributeId) : Attribute :=
  model.attributes[id.index]?.getD default

def associationAt (model : Model) (id : AssociationId) : Association :=
  model.associations[id.index]?.getD default

def operationAt (model : Model) (id : OperationId) : Operation :=
  model.operations[id.index]?.getD default

def invariantAt (model : Model) (id : InvariantId) : Invariant :=
  model.invariants[id.index]?.getD default

def entityCount (model : Model) : Nat := model.entities.size

def entityIds (model : Model) : List EntityId := (List.range model.entityCount).map EntityId.mk

def name (model : Model) (id : EntityId) : String := (model.entityAt id).name

def entityNamed? (model : Model) (name : String) : Option EntityId := model.names.find? name

def superclass (model : Model) (id : EntityId) : Option EntityId := (model.entityAt id).superclass

def allParents (model : Model) (id : EntityId) : List EntityId := (model.entityAt id).allParents

def children (model : Model) (id : EntityId) : List EntityId := (model.entityAt id).children

def far (model : Model) (role : AssociationId) : EntityId := (model.associationAt role).entity2

theorem mem_entityIds (model : Model) (id : EntityId) :
    id ∈ model.entityIds ↔ id.index < model.entityCount := by
  cases id
  simp [entityIds]

/-! ## Names -/

def typeName (model : Model) (type : TypeExpr) : String := type.render model.name

def stepName (model : Model) : Step → String
  | .attribute id => (model.attributeAt id).name
  | .role id => (model.associationAt id).role2

/-- The names of the steps, joined by points. -/
def pathName (model : Model) (path : Path) : String :=
  ".".intercalate (path.map model.stepName)

/-! ## Adding and changing elements -/

def nextEntity (model : Model) : EntityId := ⟨model.entities.size⟩

def nextAttribute (model : Model) : AttributeId := ⟨model.attributes.size⟩

def nextAssociation (model : Model) : AssociationId := ⟨model.associations.size⟩

def nextOperation (model : Model) : OperationId := ⟨model.operations.size⟩

def nextInvariant (model : Model) : InvariantId := ⟨model.invariants.size⟩

def insertEntity (model : Model) (entity : Entity) : Model :=
  { model with
    entities := model.entities.push entity
    names := model.names.insertIfNew entity.name model.nextEntity }

def modifyEntity (model : Model) (id : EntityId) (change : Entity → Entity) : Model :=
  { model with entities := model.entities.modify id.index change }

def modifyAttribute (model : Model) (id : AttributeId) (change : Attribute → Attribute) : Model :=
  { model with attributes := model.attributes.modify id.index change }

def modifyAssociation (model : Model) (id : AssociationId)
    (change : Association → Association) : Model :=
  { model with associations := model.associations.modify id.index change }

@[simp] theorem entityCount_insertEntity (model : Model) (entity : Entity) :
    (model.insertEntity entity).entityCount = model.entityCount + 1 := by
  simp [entityCount, insertEntity]

@[simp] theorem entityCount_modifyEntity (model : Model) (id : EntityId)
    (change : Entity → Entity) : (model.modifyEntity id change).entityCount = model.entityCount := by
  simp [entityCount, modifyEntity]

theorem entityAt_insertEntity_of_lt (model : Model) (entity : Entity) (id : EntityId)
    (existing : id.index < model.entityCount) :
    (model.insertEntity entity).entityAt id = model.entityAt id := by
  simp only [Model.entityAt, insertEntity]
  rw [Array.getElem?_push_lt existing, Array.getElem?_eq_getElem existing]

@[simp] theorem entityAt_insertEntity_nextEntity (model : Model) (entity : Entity) :
    (model.insertEntity entity).entityAt model.nextEntity = entity := by
  simp [Model.entityAt, insertEntity, nextEntity]

-- A name that nobody has goes to the new entity.
theorem entityNamed?_insertEntity (model : Model) (entity : Entity) (asked : String) :
    (model.insertEntity entity).entityNamed? asked =
      (model.entityNamed? asked).or (if entity.name = asked then some model.nextEntity else none) :=
  model.names.find?_insertIfNew entity.name asked model.nextEntity

theorem entityAt_modifyEntity_of_ne (model : Model) (changed asked : EntityId)
    (change : Entity → Entity) (other : changed ≠ asked) :
    (model.modifyEntity changed change).entityAt asked = model.entityAt asked := by
  have differ : changed.index ≠ asked.index := by
    intro same
    cases changed
    cases asked
    simp_all
  simp [Model.entityAt, modifyEntity, Array.getElem?_modify, differ]

theorem entityAt_modifyEntity_same (model : Model) (id : EntityId) (change : Entity → Entity)
    (existing : id.index < model.entityCount) :
    (model.modifyEntity id change).entityAt id = change (model.entityAt id) := by
  have bound : id.index < model.entities.size := existing
  simp [Model.entityAt, modifyEntity, bound, Array.getElem_modify]

end Model

end ClassModel
