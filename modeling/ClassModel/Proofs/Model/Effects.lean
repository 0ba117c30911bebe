import ClassModel.Model.Script

/-! What an edit does to each entity.

Whatever is asked of a model is asked of the entities it has under their numbers. So each edit is
described by the entity that is found under a number afterwards, and by the counts of elements.
-/

set_option autoImplicit false

namespace ClassModel

namespace Model

def HasEntity (model : Model) (id : EntityId) : Prop := id.index < model.entityCount

def HasAssociation (model : Model) (id : AssociationId) : Prop := id.index < model.associations.size

instance (model : Model) (id : EntityId) : Decidable (model.HasEntity id) :=
  inferInstanceAs (Decidable (id.index < model.entityCount))

instance (model : Model) (id : AssociationId) : Decidable (model.HasAssociation id) :=
  inferInstanceAs (Decidable (id.index < model.associations.size))

/-! ## Entities -/

theorem length_le_entityCount {model : Model} {ids : List EntityId} (once : ids.Nodup)
    (inside : ∀ id ∈ ids, model.HasEntity id) : ids.length ≤ model.entityCount := by
  have listed : ids ⊆ model.entityIds := fun id member =>
    (model.mem_entityIds id).mpr (inside id member)
  simpa [entityIds] using once.length_le_of_subset listed

theorem entityAt_eq_getElem (model : Model) (id : EntityId)
    (there : id.index < model.entities.size) : model.entityAt id = model.entities[id.index] := by
  simp [entityAt, there]

theorem entityAt_of_not_hasEntity (model : Model) (id : EntityId) (missing : ¬ model.HasEntity id) :
    model.entityAt id = default := by
  have beyond : model.entities.size ≤ id.index := Nat.le_of_not_lt missing
  simp [entityAt, beyond]

theorem entityAt_modifyEntity (model : Model) (changed asked : EntityId)
    (change : Entity → Entity) :
    (model.modifyEntity changed change).entityAt asked =
      if changed = asked ∧ model.HasEntity asked then change (model.entityAt asked)
      else model.entityAt asked := by
  by_cases same : changed = asked
  · subst same
    by_cases existing : model.HasEntity changed
    · simp [existing, entityAt_modifyEntity_same _ _ _ existing]
    · have missing : ¬ (model.modifyEntity changed change).HasEntity changed := by
        simpa [HasEntity] using existing
      simp [existing, entityAt_of_not_hasEntity _ _ existing, entityAt_of_not_hasEntity _ _ missing]
  · simp [same, entityAt_modifyEntity_of_ne _ _ _ _ same]

theorem entityAt_insertEntity (model : Model) (entity : Entity) (asked : EntityId) :
    (model.insertEntity entity).entityAt asked =
      if asked = model.nextEntity then entity else model.entityAt asked := by
  by_cases new : asked = model.nextEntity
  · subst new
    simp
  · rw [if_neg new]
    by_cases existing : model.HasEntity asked
    · exact model.entityAt_insertEntity_of_lt entity asked existing
    · have missing : ¬ (model.insertEntity entity).HasEntity asked := by
        intro inserted
        have bound : asked.index < model.entityCount + 1 := by simpa [HasEntity] using inserted
        have last : asked.index = model.entityCount := by
          have beyond := Nat.le_of_not_lt existing
          omega
        exact new (by cases asked; simpa [nextEntity, entityCount] using last)
      rw [entityAt_of_not_hasEntity _ _ missing, entityAt_of_not_hasEntity _ _ existing]

-- A part of the entities that a change does not touch is the same in the changed model.
theorem part_modifyEntity {Part : Type} (part : Entity → Part) (model : Model)
    (changed asked : EntityId) (change : Entity → Entity)
    (kept : ∀ entity, part (change entity) = part entity) :
    part ((model.modifyEntity changed change).entityAt asked) = part (model.entityAt asked) := by
  rw [entityAt_modifyEntity]
  split
  · exact kept _
  · rfl

-- A new entity that is blank in a part reads as the number did before.
theorem part_insertEntity {Part : Type} (part : Entity → Part) (model : Model) (entity : Entity)
    (asked : EntityId) (blank : part entity = part default) :
    part ((model.insertEntity entity).entityAt asked) = part (model.entityAt asked) := by
  rw [entityAt_insertEntity]
  split
  · rename_i new
    have missing : ¬ model.HasEntity asked := by
      simp [new, HasEntity, nextEntity, entityCount]
    rw [entityAt_of_not_hasEntity _ _ missing, blank]
  · rfl

-- A blank entity has to stay blank in this part, since a number without an entity reads as one.
theorem part_modifyEntity_altered {Part : Type} (part : Entity → Part) (alter : Part → Part)
    (model : Model) (changed asked : EntityId) (change : Entity → Entity)
    (altered : ∀ entity, part (change entity) = alter (part entity))
    (blank : alter (part default) = part default) :
    part ((model.modifyEntity changed change).entityAt asked) =
      if asked = changed then alter (part (model.entityAt asked))
      else part (model.entityAt asked) := by
  rw [entityAt_modifyEntity]
  by_cases same : asked = changed
  · subst same
    by_cases existing : model.HasEntity asked
    · simp [existing, altered]
    · simp [existing, entityAt_of_not_hasEntity _ _ existing, blank]
  · have other : changed ≠ asked := fun same' => same same'.symm
    simp [same, other]

theorem part_modifyAssociation {Part : Type} (part : Association → Part) (model : Model)
    (changed asked : AssociationId) (change : Association → Association)
    (kept : ∀ association, part (change association) = part association) :
    part ((model.modifyAssociation changed change).associationAt asked) =
      part (model.associationAt asked) := by
  simp only [associationAt, modifyAssociation, Array.getElem?_modify]
  split
  · cases model.associations[asked.index]? <;> simp [kept]
  · rfl

-- A link changes the inverses, and the names of near ends, of two associations.
theorem part_linkInverse {Part : Type} (part : Association → Part) (model : Model)
    (first second asked : AssociationId)
    (kept : ∀ association inverse role1, part { association with inverse, role1 } = part association) :
    part ((model.linkInverse first second).associationAt asked) = part (model.associationAt asked) := by
  unfold linkInverse
  dsimp only
  rw [part_modifyAssociation part, part_modifyAssociation part, part_modifyAssociation part,
    part_modifyAssociation part]
  all_goals exact fun association => kept association _ _

theorem far_linkInverse (model : Model) (first second asked : AssociationId) :
    (model.linkInverse first second).far asked = model.far asked :=
  part_linkInverse Association.entity2 model first second asked fun _ _ _ => rfl

-- Entities do not know about inverses.
theorem entities_linkInverse (model : Model) (first second : AssociationId) :
    (model.linkInverse first second).entities = model.entities := by
  simp only [linkInverse, modifyAssociation]

theorem attributes_linkInverse (model : Model) (first second : AssociationId) :
    (model.linkInverse first second).attributes = model.attributes := by
  simp only [linkInverse, modifyAssociation]

theorem operations_linkInverse (model : Model) (first second : AssociationId) :
    (model.linkInverse first second).operations = model.operations := by
  simp only [linkInverse, modifyAssociation]

theorem invariants_linkInverse (model : Model) (first second : AssociationId) :
    (model.linkInverse first second).invariants = model.invariants := by
  simp only [linkInverse, modifyAssociation]

theorem names_linkInverse (model : Model) (first second : AssociationId) :
    (model.linkInverse first second).names = model.names := by
  simp only [linkInverse, modifyAssociation]

/-! ## Counts -/

theorem hasEntity_nextEntity (model : Model) (entity : Entity) :
    (model.insertEntity entity).HasEntity model.nextEntity := by
  simp [HasEntity, nextEntity, entityCount, insertEntity]

/-- No element of the first model is missing in the second. -/
structure NoLarger (before after : Model) : Prop where
  entities : before.entityCount ≤ after.entityCount
  associations : before.associations.size ≤ after.associations.size

theorem NoLarger.refl (model : Model) : NoLarger model model := ⟨Nat.le_refl _, Nat.le_refl _⟩

theorem NoLarger.trans {first second third : Model} (earlier : NoLarger first second)
    (later : NoLarger second third) : NoLarger first third :=
  ⟨Nat.le_trans earlier.entities later.entities,
    Nat.le_trans earlier.associations later.associations⟩

theorem noLarger_modifyEntity {before after : Model} (grown : NoLarger before after)
    (id : EntityId) (change : Entity → Entity) : NoLarger before (after.modifyEntity id change) :=
  ⟨by simpa using grown.entities, grown.associations⟩

theorem noLarger_addAssociation (model : Model) (added : Association) :
    NoLarger model (model.addAssociation added) := by
  have extended : NoLarger model
      { model with associations := model.associations.push added } := ⟨Nat.le_refl _, by simp⟩
  exact noLarger_modifyEntity extended _ _

theorem noLarger_linkInverse (model : Model) (first second : AssociationId) :
    NoLarger model (model.linkInverse first second) where
  entities := Nat.le_of_eq (congrArg Array.size (model.entities_linkInverse first second).symm)
  associations := by simp [linkInverse, modifyAssociation]

/-! ## Links -/

end Model

/-- What is left of an entity without its parents and children. -/
def Entity.withoutLinks (entity : Entity) : Entity :=
  { entity with superclass := none, parents := [], children := [] }

namespace Model

/-- Two models that differ in generalization links at most. -/
structure SameButLinks (before after : Model) : Prop where
  count : after.entityCount = before.entityCount
  entities : ∀ id, (after.entityAt id).withoutLinks = (before.entityAt id).withoutLinks
  attributes : after.attributes = before.attributes
  associations : after.associations = before.associations
  operations : after.operations = before.operations
  invariants : after.invariants = before.invariants
  names : after.names = before.names

theorem SameButLinks.refl (model : Model) : SameButLinks model model :=
  ⟨rfl, fun _ => rfl, rfl, rfl, rfl, rfl, rfl⟩

theorem SameButLinks.trans {first second third : Model} (earlier : SameButLinks first second)
    (later : SameButLinks second third) : SameButLinks first third where
  count := later.count.trans earlier.count
  entities id := (later.entities id).trans (earlier.entities id)
  attributes := later.attributes.trans earlier.attributes
  associations := later.associations.trans earlier.associations
  operations := later.operations.trans earlier.operations
  invariants := later.invariants.trans earlier.invariants
  names := later.names.trans earlier.names

theorem SameButLinks.noLarger {before after : Model} (same : SameButLinks before after) :
    NoLarger before after :=
  ⟨Nat.le_of_eq same.count.symm, Nat.le_of_eq (congrArg Array.size same.associations.symm)⟩

theorem sameButLinks_modifyEntity (model : Model) (id : EntityId) (change : Entity → Entity)
    (kept : ∀ entity, (change entity).withoutLinks = entity.withoutLinks) :
    SameButLinks model (model.modifyEntity id change) where
  count := model.entityCount_modifyEntity id change
  entities asked := part_modifyEntity Entity.withoutLinks model id asked change kept
  attributes := rfl
  associations := rfl
  operations := rfl
  invariants := rfl
  names := rfl

theorem sameButLinks_listChild (model : Model) (parent child : EntityId) :
    SameButLinks model (model.listChild parent child) := by
  refine model.sameButLinks_modifyEntity _ _ fun entity => ?_
  split <;> rfl

theorem sameButLinks_unlistChild (model : Model) (parent child : EntityId) :
    SameButLinks model (model.unlistChild parent child) :=
  model.sameButLinks_modifyEntity _ _ fun _ => rfl

theorem sameButLinks_clearSuperclass (model : Model) (child : EntityId) :
    SameButLinks model (model.clearSuperclass child) := by
  unfold clearSuperclass
  split
  · exact .refl model
  · rename_i old _
    have cleared := model.sameButLinks_modifyEntity child ({ · with superclass := none })
      fun _ => rfl
    dsimp only
    split
    · exact cleared
    · exact cleared.trans (sameButLinks_unlistChild _ old child)

theorem sameButLinks_setSuperclass (model : Model) (child : EntityId) (parent : Option EntityId) :
    SameButLinks model (model.setSuperclass child parent) := by
  have changed := (model.sameButLinks_clearSuperclass child).trans
    (sameButLinks_modifyEntity _ child ({ · with superclass := parent }) fun _ => rfl)
  cases parent with
  | none => exact changed
  | some parent => exact changed.trans (sameButLinks_listChild _ parent child)

theorem sameButLinks_addParent (model : Model) (child parent : EntityId) :
    SameButLinks model (model.addParent child parent) := by
  unfold addParent
  split
  · exact .refl model
  · have named := model.sameButLinks_modifyEntity child
      (fun entity => { entity with parents := entity.parents ++ [parent] }) fun _ => rfl
    exact named.trans (sameButLinks_listChild _ parent child)

theorem sameButLinks_removeGeneralization (model : Model) (parent child : EntityId) :
    SameButLinks model (model.removeGeneralization parent child) := by
  refine (model.sameButLinks_unlistChild parent child).trans ?_
  exact sameButLinks_modifyEntity _ child _ fun _ => rfl

end Model

end ClassModel
