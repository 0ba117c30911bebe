import ClassModel.Proofs.Model.Effects

/-! Growth: a model that has all that another has, under the same numbers and unchanged.

Elements that are added, and changes of elements the smaller model does not have, leave it as it is.
-/

set_option autoImplicit false

namespace ClassModel

/-- What is in the first array is in the second, in the same place. -/
def Keeps {α : Type} (before after : Array α) : Prop :=
  ∀ index < before.size, after[index]? = before[index]?

namespace Keeps

variable {α : Type} {before after : Array α}

theorem refl (elements : Array α) : Keeps elements elements := fun _ _ => rfl

theorem lt_size (kept : Keeps before after) {index : Nat} (there : index < before.size) :
    index < after.size := by
  have found := kept index there
  rw [Array.getElem?_eq_getElem there] at found
  exact (Array.getElem?_eq_some_iff.mp found).1

theorem size_le (kept : Keeps before after) : before.size ≤ after.size :=
  Nat.le_of_not_lt fun larger => Nat.lt_irrefl _ (kept.lt_size larger)

theorem trans {last : Array α} (earlier : Keeps before after) (later : Keeps after last) :
    Keeps before last :=
  fun index there => (later index (earlier.lt_size there)).trans (earlier index there)

theorem push (kept : Keeps before after) (added : α) : Keeps before (after.push added) := by
  intro index there
  have inside := kept.lt_size there
  rw [Array.getElem?_push_lt inside, ← Array.getElem?_eq_getElem inside, kept index there]

theorem modify (kept : Keeps before after) {changed : Nat} (change : α → α)
    (new : ¬ changed < before.size) : Keeps before (after.modify changed change) := by
  intro index there
  have other : changed ≠ index := fun same => new (same ▸ there)
  rw [Array.getElem?_modify, if_neg other, kept index there]

theorem getD_eq (kept : Keeps before after) {index : Nat} (there : index < before.size)
    (default : α) : after[index]?.getD default = before[index]?.getD default := by
  rw [kept index there]

end Keeps

namespace Model

def HasAttribute (model : Model) (id : AttributeId) : Prop := id.index < model.attributes.size

instance (model : Model) (id : AttributeId) : Decidable (model.HasAttribute id) :=
  inferInstanceAs (Decidable (id.index < model.attributes.size))

/-- All that is in the first model is in the second, unchanged, and is found by the same names. -/
structure Extends (before after : Model) : Prop where
  entities : Keeps before.entities after.entities
  attributes : Keeps before.attributes after.attributes
  associations : Keeps before.associations after.associations
  operations : Keeps before.operations after.operations
  invariants : Keeps before.invariants after.invariants
  named : ∀ asked id, before.entityNamed? asked = some id → after.entityNamed? asked = some id

namespace Extends

variable {before after : Model}

theorem refl (model : Model) : Extends model model :=
  ⟨.refl _, .refl _, .refl _, .refl _, .refl _, fun _ _ found => found⟩

theorem trans {last : Model} (earlier : Extends before after) (later : Extends after last) :
    Extends before last where
  entities := earlier.entities.trans later.entities
  attributes := earlier.attributes.trans later.attributes
  associations := earlier.associations.trans later.associations
  operations := earlier.operations.trans later.operations
  invariants := earlier.invariants.trans later.invariants
  named asked id found := later.named asked id (earlier.named asked id found)

/-! ## What is asked of the smaller model -/

theorem hasEntity (kept : Extends before after) {id : EntityId} (existing : before.HasEntity id) :
    after.HasEntity id := kept.entities.lt_size existing

theorem hasAttribute (kept : Extends before after) {id : AttributeId}
    (existing : before.HasAttribute id) : after.HasAttribute id := kept.attributes.lt_size existing

theorem entityAt (kept : Extends before after) {id : EntityId} (existing : before.HasEntity id) :
    after.entityAt id = before.entityAt id := kept.entities.getD_eq existing _

theorem name (kept : Extends before after) {id : EntityId} (existing : before.HasEntity id) :
    after.name id = before.name id := congrArg Entity.name (kept.entityAt existing)

theorem attributeAt (kept : Extends before after) {id : AttributeId}
    (existing : before.HasAttribute id) : after.attributeAt id = before.attributeAt id :=
  kept.attributes.getD_eq existing _

theorem associationAt (kept : Extends before after) {id : AssociationId}
    (existing : before.HasAssociation id) : after.associationAt id = before.associationAt id :=
  kept.associations.getD_eq existing _

theorem not_hasEntity_nextEntity (kept : Extends before after) :
    ¬ before.HasEntity after.nextEntity := Nat.not_lt_of_le kept.entities.size_le

theorem not_hasAttribute_nextAttribute (kept : Extends before after) :
    ¬ before.HasAttribute after.nextAttribute := Nat.not_lt_of_le kept.attributes.size_le

/-! ## What leaves it as it is -/

theorem insertEntity (kept : Extends before after) (entity : Entity) :
    Extends before (after.insertEntity entity) :=
  { kept with
    entities := kept.entities.push entity
    named := fun asked id found => by
      rw [entityNamed?_insertEntity, kept.named asked id found, Option.some_or] }

theorem modifyEntity (kept : Extends before after) {id : EntityId} (new : ¬ before.HasEntity id)
    (change : Entity → Entity) : Extends before (after.modifyEntity id change) :=
  { kept with entities := kept.entities.modify change new }

theorem modifyAttribute (kept : Extends before after) {id : AttributeId}
    (new : ¬ before.HasAttribute id) (change : Attribute → Attribute) :
    Extends before (after.modifyAttribute id change) :=
  { kept with attributes := kept.attributes.modify change new }

theorem modifyAssociation (kept : Extends before after) {id : AssociationId}
    (new : ¬ before.HasAssociation id) (change : Association → Association) :
    Extends before (after.modifyAssociation id change) :=
  { kept with associations := kept.associations.modify change new }

theorem attachAttribute (kept : Extends before after) {entity : EntityId}
    (new : ¬ before.HasEntity entity) (added : Attribute) :
    Extends before (after.attachAttribute entity added) := by
  have pushed : Extends before { after with attributes := after.attributes.push added } :=
    { kept with attributes := kept.attributes.push added }
  exact pushed.modifyEntity new _

theorem linkInverse (kept : Extends before after) {first second : AssociationId}
    (firstNew : ¬ before.HasAssociation first) (secondNew : ¬ before.HasAssociation second) :
    Extends before (after.linkInverse first second) :=
  (((kept.modifyAssociation firstNew _).modifyAssociation secondNew _).modifyAssociation firstNew
    _).modifyAssociation secondNew _

end Extends

end Model

end ClassModel
