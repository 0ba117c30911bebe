import ClassModel.Copies.Flatten
import ClassModel.Proofs.Model.Growth

/-! Entities that are inserted together with their attributes.

The new entity lists nothing but the attributes it was inserted with, in their order, and they are
new as well.
-/

set_option autoImplicit false

namespace ClassModel

/-- What is left of an entity without its attributes. -/
def Entity.withoutAttributes (entity : Entity) : Entity := { entity with attributes := [] }

namespace Model

/-- The attributes an entity lists, as they are declared. -/
def declaredAttributes (model : Model) (id : EntityId) : List Attribute :=
  (model.entityAt id).attributes.map model.attributeAt

theorem Extends.declaredAttributes {before after : Model} (kept : Extends before after)
    {id : EntityId} (existing : before.HasEntity id)
    (there : ∀ listed ∈ (before.entityAt id).attributes, before.HasAttribute listed) :
    after.declaredAttributes id = before.declaredAttributes id := by
  unfold Model.declaredAttributes
  rw [kept.entityAt existing]
  exact List.map_congr_left fun listed member => kept.attributeAt (there listed member)

theorem SameButLinks.declaredAttributes {before after : Model} (same : SameButLinks before after)
    (id : EntityId) : after.declaredAttributes id = before.declaredAttributes id := by
  have lists : (after.entityAt id).attributes = (before.entityAt id).attributes :=
    (congrArg Entity.attributes (same.entities id) :)
  unfold Model.declaredAttributes
  rw [lists]
  exact List.map_congr_left fun listed _ => by simp only [attributeAt, same.attributes]

/-! ## Attaching -/

section

variable (model : Model) (entity : EntityId) (added : Attribute)

theorem keeps_attributes_attachAttribute :
    Keeps model.attributes (model.attachAttribute entity added).attributes :=
  (Keeps.refl _).push added

theorem attributeAt_attachAttribute_nextAttribute :
    (model.attachAttribute entity added).attributeAt model.nextAttribute = added := by
  simp [attributeAt, attachAttribute, modifyEntity, nextAttribute]

theorem hasAttribute_attachAttribute_nextAttribute :
    (model.attachAttribute entity added).HasAttribute model.nextAttribute := by
  simp [HasAttribute, attachAttribute, modifyEntity, nextAttribute]

theorem entityAt_attachAttribute_same (existing : model.HasEntity entity) :
    (model.attachAttribute entity added).entityAt entity =
      { model.entityAt entity with
        attributes := (model.entityAt entity).attributes ++ [model.nextAttribute] } :=
  entityAt_modifyEntity_same _ entity _ existing

theorem declaredAttributes_attachAttribute {id : EntityId} (existing : model.HasEntity id)
    (there : ∀ listed ∈ (model.entityAt id).attributes, model.HasAttribute listed) :
    (model.attachAttribute entity added).declaredAttributes id =
      model.declaredAttributes id ++ if entity = id then [added] else [] := by
  have kept : (model.entityAt id).attributes.map (model.attachAttribute entity added).attributeAt =
      model.declaredAttributes id := List.map_congr_left fun listed member =>
    (model.keeps_attributes_attachAttribute entity added).getD_eq (there listed member) _
  by_cases here : entity = id
  · subst here
    rw [declaredAttributes, entityAt_attachAttribute_same _ _ _ existing, List.map_append, kept,
      List.map_singleton, attributeAt_attachAttribute_nextAttribute, if_pos rfl]
  · have other : (model.attachAttribute entity added).entityAt id = model.entityAt id :=
      entityAt_modifyEntity_of_ne _ _ _ _ here
    rw [declaredAttributes, other, kept, if_neg here, List.append_nil]

end

/-! ## Inserting -/

/-- A model to which one entity has been added, with certain attributes. -/
structure Inserted (model : Model) (entity : Entity) (attributes : List Attribute)
    (after : Model) : Prop where
  kept : Extends model after
  count : after.entityCount = model.entityCount + 1
  entity : (after.entityAt model.nextEntity).withoutAttributes = entity.withoutAttributes
  declared : after.declaredAttributes model.nextEntity = attributes
  listed : ∀ id ∈ (after.entityAt model.nextEntity).attributes,
    after.HasAttribute id ∧ ¬ model.HasAttribute id
  associations : after.associations = model.associations

namespace Inserted

variable {model after : Model} {entity : Entity} {attributes : List Attribute}

theorem hasEntity (inserted : Inserted model entity attributes after) :
    after.HasEntity model.nextEntity := by
  show model.entityCount < after.entityCount
  rw [inserted.count]
  exact Nat.lt_succ_self _

theorem eq_nextEntity (inserted : Inserted model entity attributes after) {id : EntityId}
    (existing : after.HasEntity id) (new : ¬ model.HasEntity id) : id = model.nextEntity := by
  have below : id.index < model.entityCount + 1 := inserted.count ▸ existing
  have above : model.entityCount ≤ id.index := Nat.le_of_not_lt new
  cases id
  exact congrArg EntityId.mk (Nat.le_antisymm (Nat.le_of_lt_succ below) above)

theorem bare (model : Model) (entity : Entity) (blank : entity.attributes = []) :
    Inserted model entity [] (model.insertEntity entity) where
  kept := (Extends.refl model).insertEntity entity
  count := model.entityCount_insertEntity entity
  entity := by rw [entityAt_insertEntity_nextEntity]
  declared := by simp [declaredAttributes, blank]
  listed := by simp [blank]
  associations := rfl

theorem attach (inserted : Inserted model entity attributes after) (added : Attribute) :
    Inserted model entity (attributes ++ [added])
      (after.attachAttribute model.nextEntity added) where
  kept := inserted.kept.attachAttribute (Extends.refl model).not_hasEntity_nextEntity added
  count := by
    rw [← inserted.count]
    exact entityCount_modifyEntity _ _ _
  entity := by
    rw [entityAt_attachAttribute_same _ _ _ inserted.hasEntity, ← inserted.entity]
    rfl
  declared := by
    rw [after.declaredAttributes_attachAttribute _ added inserted.hasEntity fun id member =>
      (inserted.listed id member).1, if_pos rfl, inserted.declared]
  listed := by
    rw [entityAt_attachAttribute_same _ _ _ inserted.hasEntity]
    intro id member
    rcases List.mem_append.mp member with earlier | last
    · obtain ⟨there, new⟩ := inserted.listed id earlier
      exact ⟨(after.keeps_attributes_attachAttribute _ added).lt_size there, new⟩
    · rw [List.mem_singleton.mp last]
      exact ⟨after.hasAttribute_attachAttribute_nextAttribute _ added,
        inserted.kept.not_hasAttribute_nextAttribute⟩
  associations := inserted.associations

theorem attachAll (inserted : Inserted model entity attributes after) (more : List Attribute) :
    Inserted model entity (attributes ++ more)
      (more.foldl (attachAttribute · model.nextEntity) after) := by
  induction more generalizing attributes after with
  | nil => rwa [List.append_nil]
  | cons added rest ih => simpa using ih (inserted.attach added)

end Inserted

theorem inserted_insertWithAttributes (model : Model) {entity : Entity}
    (blank : entity.attributes = []) (attributes : List Attribute) :
    Inserted model entity attributes (model.insertWithAttributes entity attributes) :=
  (Inserted.bare model entity blank).attachAll attributes

theorem inserted_flattenedCopy (model : Model) (policy : PathPolicy) (id : EntityId)
    (depth : Nat) : Inserted model ((model.entityAt id).blankCopy id)
      (model.flattenedAttributes policy id depth) (model.flattenedCopy policy id depth).value :=
  model.inserted_insertWithAttributes rfl _

theorem inserted_targetCopy (model : Model) (id : EntityId) : Inserted model
    { (model.entityAt id).blankCopy id with
      provenance := if (model.entityAt id).provenance = .source then .shared
        else (model.entityAt id).provenance }
    (model.declaredAttributes id) (model.targetCopy id) :=
  model.inserted_insertWithAttributes rfl _

/-- The attributes that the flattened copy of an entity declares. -/
def attributesOfCopy (model : Model) (policy : PathPolicy) (id : EntityId) (depth : Nat) :
    List Attribute :=
  (model.flattenedCopy policy id depth).value.declaredAttributes model.nextEntity

theorem attributesOfCopy_eq (model : Model) (policy : PathPolicy) (id : EntityId) (depth : Nat) :
    model.attributesOfCopy policy id depth = model.flattenedAttributes policy id depth :=
  (model.inserted_flattenedCopy policy id depth).declared

end Model

end ClassModel
