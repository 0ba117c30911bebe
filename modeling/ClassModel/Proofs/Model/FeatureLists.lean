import ClassModel.Proofs.Model.Histories
import Mathlib.Data.List.Nodup

/-! The lists of features of a reachable model.

Every feature is listed in one place at most, and everything that is listed is there. A new feature
gets a number that no list has yet; otherwise a list only loses members.
-/

set_option autoImplicit false

namespace ClassModel

/-- The four kinds of features that an entity lists. -/
inductive FeatureKind where
  | attributes
  | associations
  | operations
  | invariants
  deriving DecidableEq, Repr

/-- The numbers of the features of one kind, in the order of the entity. -/
def Entity.listed (entity : Entity) : FeatureKind → List Nat
  | .attributes => entity.attributes.map AttributeId.index
  | .associations => entity.associations.map AssociationId.index
  | .operations => entity.operations.map OperationId.index
  | .invariants => entity.invariants.map InvariantId.index

theorem Entity.IsBare.listed_eq_nil {entity : Entity} (bare : entity.IsBare) (kind : FeatureKind) :
    entity.listed kind = [] := by
  cases kind <;> simp [Entity.listed, bare.attributes, bare.associations, bare.operations,
    bare.invariants]

@[simp] theorem Entity.listed_structural (entity : Entity) (kind : FeatureKind) :
    entity.structural.listed kind = entity.listed kind := by
  cases kind <;> rfl

@[simp] theorem Entity.listed_withoutLinks (entity : Entity) (kind : FeatureKind) :
    entity.withoutLinks.listed kind = entity.listed kind := by
  cases kind <;> rfl

namespace Model

def featureCount (model : Model) : FeatureKind → Nat
  | .attributes => model.attributes.size
  | .associations => model.associations.size
  | .operations => model.operations.size
  | .invariants => model.invariants.size

def listed (model : Model) (kind : FeatureKind) (id : EntityId) : List Nat :=
  (model.entityAt id).listed kind

/-- Whether an entity declares a feature. Attributes may be listed by others, so they are not asked. -/
def BelongsTo (model : Model) (id : EntityId) : FeatureKind → Nat → Prop
  | .attributes, _ => True
  | .associations, index => (model.associationAt ⟨index⟩).entity1 = id
  | .operations, index => (model.operationAt ⟨index⟩).owner = id
  | .invariants, index => (model.invariantAt ⟨index⟩).owner = id

/-- What one change does to the lists of one kind. -/
inductive ListsChange (kind : FeatureKind) (model next : Model) : Prop where
  /-- Nothing is added. -/
  | fewer (count : next.featureCount kind = model.featureCount kind)
      (lists : ∀ id, (next.listed kind id).Sublist (model.listed kind id))
  /-- A new feature of an entity comes last in its list or takes a place in it. -/
  | more (owner : EntityId) (count : next.featureCount kind = model.featureCount kind + 1)
      (belongs : next.BelongsTo owner kind (model.featureCount kind))
      (others : ∀ id, id ≠ owner → next.listed kind id = model.listed kind id)
      (own : next.listed kind owner = model.listed kind owner ++ [model.featureCount kind] ∨
        ∃ place, next.listed kind owner =
          (model.listed kind owner).set place (model.featureCount kind))

theorem ListsChange.same {kind : FeatureKind} {model next : Model}
    (count : next.featureCount kind = model.featureCount kind)
    (lists : ∀ id, next.listed kind id = model.listed kind id) : ListsChange kind model next :=
  .fewer count fun id => lists id ▸ List.Sublist.refl _

theorem SameButLinks.listsChange {model next : Model} (same : SameButLinks model next)
    (kind : FeatureKind) : ListsChange kind model next := by
  have lists : ∀ id, next.listed kind id = model.listed kind id := by
    intro id
    simpa [listed] using congrArg (Entity.listed · kind) (same.entities id)
  refine .same ?_ lists
  cases kind with
  | attributes => exact congrArg Array.size same.attributes
  | associations => exact congrArg Array.size same.associations
  | operations => exact congrArg Array.size same.operations
  | invariants => exact congrArg Array.size same.invariants

theorem listed_modifyEntity_of_kept (model : Model) (kind : FeatureKind) (changed id : EntityId)
    (change : Entity → Entity) (kept : ∀ entity, (change entity).listed kind = entity.listed kind) :
    (model.modifyEntity changed change).listed kind id = model.listed kind id :=
  part_modifyEntity (Entity.listed · kind) model changed id change kept

theorem listed_modifyEntity_of_ne (model : Model) (kind : FeatureKind) {changed id : EntityId}
    (change : Entity → Entity) (other : id ≠ changed) :
    (model.modifyEntity changed change).listed kind id = model.listed kind id := by
  unfold listed
  rw [entityAt_modifyEntity_of_ne _ _ _ _ other.symm]

theorem listed_modifyEntity_same (model : Model) (kind : FeatureKind) {id : EntityId}
    (change : Entity → Entity) (existing : model.HasEntity id) :
    (model.modifyEntity id change).listed kind id = (change (model.entityAt id)).listed kind := by
  unfold listed
  rw [entityAt_modifyEntity_same _ _ _ existing]

-- Adding a feature is two changes: the model gets it, then one entity lists it. Lists of the other
-- kinds stay as they are.
theorem listsChange_of_added {model extended : Model} {owner : EntityId} {change : Entity → Entity}
    (added kind : FeatureKind) (existing : model.HasEntity owner)
    (entities : extended.entities = model.entities)
    (counts : ∀ kind, extended.featureCount kind =
      model.featureCount kind + if kind = added then 1 else 0)
    (belongs : extended.BelongsTo owner added (model.featureCount added))
    (kept : ∀ kind, kind ≠ added → ∀ entity, (change entity).listed kind = entity.listed kind)
    (own : (change (model.entityAt owner)).listed added =
        model.listed added owner ++ [model.featureCount added] ∨
      ∃ place, (change (model.entityAt owner)).listed added =
        (model.listed added owner).set place (model.featureCount added)) :
    ListsChange kind model (extended.modifyEntity owner change) := by
  have found : ∀ id, extended.entityAt id = model.entityAt id := by
    intro id
    simp only [entityAt, entities]
  have before : ∀ id, extended.listed kind id = model.listed kind id := by
    intro id
    simp only [listed, found]
  have count : (extended.modifyEntity owner change).featureCount kind =
      model.featureCount kind + if kind = added then 1 else 0 := by
    rw [← counts kind]
    cases kind <;> rfl
  by_cases same : kind = added
  · subst same
    rw [if_pos rfl] at count
    refine .more owner count (by cases kind <;> exact belongs) (fun id other => ?_) ?_
    · rw [listed_modifyEntity_of_ne _ _ _ other, before id]
    · have there : extended.HasEntity owner := by
        simpa [HasEntity, entityCount, entities] using existing
      rw [listed_modifyEntity_same _ _ _ there, found]
      exact own
  · rw [if_neg same] at count
    refine .same count fun id => ?_
    rw [listed_modifyEntity_of_kept _ _ _ _ _ (kept kind same), before id]

end Model

/-! ## One change -/

theorem Edit.listsChange {model : Model} (edit : Edit) (fits : edit.Fits model)
    (kind : FeatureKind) : Model.ListsChange kind model (edit.apply model) := by
  cases edit with
  | insertEntity entity =>
    refine .same (by cases kind <;> rfl) fun id =>
      Model.part_insertEntity (Entity.listed · kind) model entity id ?_
    rw [Entity.IsBare.listed_eq_nil fits]
    cases kind <;> rfl
  | attachAttribute entity added =>
    refine Model.listsChange_of_added .attributes kind fits rfl (fun kind => ?_) trivial
      (fun kind other => ?_) (.inl ?_)
    · cases kind <;> simp [Model.featureCount]
    · intro entity
      cases kind with
      | attributes => exact absurd rfl other
      | _ => rfl
    · simp [Entity.listed, Model.listed, Model.featureCount, Model.nextAttribute]
  | removeAttribute entity removed =>
    refine .fewer (by cases kind <;> rfl) fun id => ?_
    unfold Model.listed
    rw [apply, Model.removeAttribute, Model.entityAt_modifyEntity]
    split
    · cases kind with
      | attributes => exact (List.filter_sublist).map _
      | _ => exact .refl _
    · exact .refl _
  | addAssociation added =>
    refine Model.listsChange_of_added .associations kind fits rfl (fun kind => ?_)
      (by simp [Model.BelongsTo, Model.associationAt, Model.featureCount])
      (fun kind other => ?_) (.inl ?_)
    · cases kind <;> simp [Model.featureCount]
    · intro entity
      cases kind with
      | associations => exact absurd rfl other
      | _ => rfl
    · simp [Entity.listed, Model.listed, Model.featureCount, Model.nextAssociation]
  | removeAssociation entity removed =>
    refine .fewer (by cases kind <;> rfl) fun id => ?_
    unfold Model.listed
    rw [apply, Model.removeAssociation, Model.entityAt_modifyEntity]
    split
    · cases kind with
      | associations => exact (List.filter_sublist).map _
      | _ => exact .refl _
    · exact .refl _
  | linkInverse first second =>
    refine .same ?_ fun id => ?_
    · cases kind <;> simp [Model.featureCount, apply, Model.linkInverse, Model.modifyAssociation]
    · simp only [apply, Model.listed, Model.entityAt, Model.entities_linkInverse]
  | addOperation added =>
    refine Model.listsChange_of_added .operations kind fits rfl (fun kind => ?_)
      (by simp [Model.BelongsTo, Model.operationAt, Model.featureCount])
      (fun kind other => ?_) ?_
    · cases kind <;> simp [Model.featureCount]
    · intro entity
      cases kind with
      | operations => exact absurd rfl other
      | _ => rfl
    · cases found : model.redeclaredAt? added with
      | none => exact .inl (by simp [Entity.listed, Model.listed, Model.featureCount,
          Model.nextOperation])
      | some place => exact .inr ⟨place, by simp [Entity.listed, Model.listed, Model.featureCount,
          Model.nextOperation, List.map_set]⟩
  | addInvariant added =>
    refine Model.listsChange_of_added .invariants kind fits rfl (fun kind => ?_)
      (by simp [Model.BelongsTo, Model.invariantAt, Model.featureCount])
      (fun kind other => ?_) (.inl ?_)
    · cases kind <;> simp [Model.featureCount]
    · intro entity
      cases kind with
      | invariants => exact absurd rfl other
      | _ => rfl
    · simp [Entity.listed, Model.listed, Model.featureCount, Model.nextInvariant]
  | setSuperclass child parent =>
    exact (model.sameButLinks_setSuperclass child parent).listsChange kind
  | addParent child parent => exact (model.sameButLinks_addParent child parent).listsChange kind
  | removeGeneralization parent child =>
    exact (model.sameButLinks_removeGeneralization parent child).listsChange kind

namespace Model

theorem Changes.listsChange {model next : Model} (changes : Changes model next)
    (kind : FeatureKind) : ListsChange kind model next := by
  cases changes with
  | edit edit fits => exact edit.listsChange fits kind
  | settings id change kept =>
    refine .same (by cases kind <;> rfl) fun asked => ?_
    refine listed_modifyEntity_of_kept model kind id asked change fun entity => ?_
    simpa using congrArg (Entity.listed · kind) (kept entity)
  | changeAttribute id change =>
    refine .same ?_ fun _ => rfl
    cases kind <;> simp [featureCount, modifyAttribute]
  | changeAssociation id change =>
    refine .same ?_ fun _ => rfl
    cases kind <;> simp [featureCount, modifyAssociation]

/-! ## Reachable models -/

/-- What is listed is there, and it is in one place only. -/
structure ListsApart (model : Model) : Prop where
  inRange : ∀ kind id, ∀ index ∈ model.listed kind id, index < model.featureCount kind
  once : ∀ kind id, (model.listed kind id).Nodup
  apart : ∀ kind first second, ∀ index ∈ model.listed kind first,
    index ∈ model.listed kind second → first = second

section

variable {model next : Model} {kind : FeatureKind} {owner : EntityId}

-- Where a new feature was added, everything else that is listed was listed before.
theorem listed_before_or_new
    (others : ∀ id, id ≠ owner → next.listed kind id = model.listed kind id)
    (own : next.listed kind owner = model.listed kind owner ++ [model.featureCount kind] ∨
      ∃ place, next.listed kind owner =
        (model.listed kind owner).set place (model.featureCount kind))
    {id : EntityId} {index : Nat} (listed : index ∈ next.listed kind id) :
    index ∈ model.listed kind id ∨ index = model.featureCount kind ∧ id = owner := by
  by_cases same : id = owner
  · subst same
    rcases own with last | ⟨place, replaced⟩
    · rw [last, List.mem_append, List.mem_singleton] at listed
      exact listed.imp_right fun new => ⟨new, rfl⟩
    · rw [replaced] at listed
      exact (List.mem_or_eq_of_mem_set listed).imp_right fun new => ⟨new, rfl⟩
  · rw [others id same] at listed
    exact .inl listed

theorem nodup_listed_of_added (sound : ListsApart model)
    (others : ∀ id, id ≠ owner → next.listed kind id = model.listed kind id)
    (own : next.listed kind owner = model.listed kind owner ++ [model.featureCount kind] ∨
      ∃ place, next.listed kind owner =
        (model.listed kind owner).set place (model.featureCount kind)) (id : EntityId) :
    (next.listed kind id).Nodup := by
  have new : ∀ id, model.featureCount kind ∉ model.listed kind id := by
    intro id listed
    exact Nat.lt_irrefl _ (sound.inRange kind id _ listed)
  by_cases same : id = owner
  · subst same
    rcases own with last | ⟨place, replaced⟩
    · rw [last, List.nodup_append]
      refine ⟨sound.once kind id, by simp, ?_⟩
      intro index listed other single
      rw [List.mem_singleton.mp single]
      rintro rfl
      exact new id listed
    · rw [replaced]
      exact (sound.once kind id).set (new id)
  · rw [others id same]
    exact sound.once kind id

end

-- A change keeps the lists apart, since the number it adds is greater than all others.
theorem ListsApart.step {model next : Model} (sound : ListsApart model)
    (change : ∀ kind, ListsChange kind model next) : ListsApart next where
  inRange kind id index listed := by
    cases change kind with
    | fewer count lists =>
      rw [count]
      exact sound.inRange kind id index ((lists id).subset listed)
    | more owner count _ others own =>
      rw [count]
      rcases listed_before_or_new others own listed with before | ⟨rfl, _⟩
      · exact Nat.lt_succ_of_lt (sound.inRange kind id index before)
      · exact Nat.lt_succ_self _
  once kind id := by
    cases change kind with
    | fewer count lists => exact (sound.once kind id).sublist (lists id)
    | more owner count _ others own => exact nodup_listed_of_added sound others own id
  apart kind first second index one other := by
    cases change kind with
    | fewer count lists =>
      exact sound.apart kind first second index ((lists first).subset one)
        ((lists second).subset other)
    | more owner count _ others own =>
      rcases listed_before_or_new others own one with before | ⟨new, here⟩
      · rcases listed_before_or_new others own other with earlier | ⟨rfl, _⟩
        · exact sound.apart kind first second index before earlier
        · exact absurd (sound.inRange kind first _ before) (Nat.lt_irrefl _)
      · rcases listed_before_or_new others own other with earlier | ⟨_, there⟩
        · exact absurd (new ▸ sound.inRange kind second _ earlier) (Nat.lt_irrefl _)
        · exact here.trans there.symm

theorem listsApart_empty : ListsApart .empty where
  inRange kind id index listed := by cases kind <;> cases listed
  once kind id := by cases kind <;> exact .nil
  apart kind first second index listed := by cases kind <;> cases listed

/-- In a reachable model every feature is listed once at most, and all that is listed is there. -/
theorem Reachable.listsApart {model : Model} (reachable : model.Reachable) : ListsApart model :=
  reachable.holds listsApart_empty fun changes sound => sound.step changes.listsChange

end Model

end ClassModel
