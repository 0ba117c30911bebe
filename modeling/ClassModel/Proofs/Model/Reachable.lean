import ClassModel.Copies.Flatten
import ClassModel.Document.Load
import ClassModel.Inheritance.Subclasses
import ClassModel.Proofs.Model.Effects
import Mathlib.Logic.Relation

/-! Models that can be reached.

A model is reached from the empty one by edits, by changes of settings and by the operations that
are made of edits: loading, repair of cycles and copies. An edit fits a model when the elements it
adds to are there.
-/

set_option autoImplicit false

namespace ClassModel

/-- An entity in which nothing is listed and which has no parents. -/
structure Entity.IsBare (entity : Entity) : Prop where
  superclass : entity.superclass = none
  parents : entity.parents = []
  children : entity.children = []
  attributes : entity.attributes = []
  associations : entity.associations = []
  operations : entity.operations = []
  invariants : entity.invariants = []

instance (entity : Entity) : Decidable entity.IsBare :=
  decidable_of_iff (entity.superclass = none ∧ entity.parents = [] ∧ entity.children = [] ∧
      entity.attributes = [] ∧ entity.associations = [] ∧ entity.operations = [] ∧
      entity.invariants = [])
    ⟨fun ⟨superclass, parents, children, attributes, associations, operations, invariants⟩ =>
      ⟨superclass, parents, children, attributes, associations, operations, invariants⟩,
    fun bare => ⟨bare.superclass, bare.parents, bare.children, bare.attributes, bare.associations,
      bare.operations, bare.invariants⟩⟩

/-- What is left of an entity without its settings: its name, its links and its lists. -/
def Entity.structural (entity : Entity) : Entity :=
  { entity with
    role := default
    provenance := default
    capabilities := default
    tags := default
    cardinality := default
    linkedAssociation := default
    cache := default }

/-- What is left of an association without its settings: its ends and its inverse. -/
def Association.structural (association : Association) : Association :=
  { association with
    role1 := default, role2 := default, card1 := default, card2 := default, flags := default }

/-- Whether a model has the elements that an edit adds to or links. -/
def Edit.Fits (model : Model) : Edit → Prop
  | .insertEntity entity => entity.IsBare
  | .attachAttribute entity _ => model.HasEntity entity
  | .removeAttribute _ _ => True
  | .addAssociation added => model.HasEntity added.entity1
  | .removeAssociation _ _ => True
  | .linkInverse first second => model.HasAssociation first ∧ model.HasAssociation second
  | .addOperation added => model.HasEntity added.owner
  | .addInvariant added => model.HasEntity added.owner
  | .setSuperclass child parent => model.HasEntity child ∧ ∀ id ∈ parent, model.HasEntity id
  | .addParent child parent => model.HasEntity child ∧ model.HasEntity parent
  | .removeGeneralization _ _ => True

instance (model : Model) : (edit : Edit) → Decidable (edit.Fits model)
  | .insertEntity entity => inferInstanceAs (Decidable entity.IsBare)
  | .attachAttribute entity _ => inferInstanceAs (Decidable (model.HasEntity entity))
  | .removeAttribute _ _ => .isTrue trivial
  | .addAssociation added => inferInstanceAs (Decidable (model.HasEntity added.entity1))
  | .removeAssociation _ _ => .isTrue trivial
  | .linkInverse first second =>
    inferInstanceAs (Decidable (model.HasAssociation first ∧ model.HasAssociation second))
  | .addOperation added => inferInstanceAs (Decidable (model.HasEntity added.owner))
  | .addInvariant added => inferInstanceAs (Decidable (model.HasEntity added.owner))
  | .setSuperclass child parent =>
    inferInstanceAs (Decidable (model.HasEntity child ∧ ∀ id ∈ parent, model.HasEntity id))
  | .addParent child parent =>
    inferInstanceAs (Decidable (model.HasEntity child ∧ model.HasEntity parent))
  | .removeGeneralization _ _ => .isTrue trivial

namespace Model

/-- One edit that fits, or one change of settings. -/
inductive Changes (model : Model) : Model → Prop where
  | edit (edit : Edit) (fits : edit.Fits model) : Changes model (edit.apply model)
  | settings (id : EntityId) (change : Entity → Entity)
      (kept : ∀ entity, (change entity).structural = entity.structural) :
      Changes model (model.modifyEntity id change)
  | changeAttribute (id : AttributeId) (change : Attribute → Attribute) :
      Changes model (model.modifyAttribute id change)
  | changeAssociation (id : AssociationId) (change : Association → Association)
      (kept : ∀ association, (change association).structural = association.structural) :
      Changes model (model.modifyAssociation id change)

/-- One model becomes another by changes. -/
abbrev Leads : Model → Model → Prop := Relation.ReflTransGen Changes

inductive Reachable : Model → Prop where
  | empty : Reachable .empty
  | change {model next : Model} (reachable : Reachable model) (changes : Changes model next) :
      Reachable next
  | load {model : Model} (reachable : Reachable model) (document : Document)
      (provenance : Provenance) : Reachable (model.load document provenance).model
  | allSubclasses {model : Model} (reachable : Reachable model) (id : EntityId) :
      Reachable (model.allSubclasses id).model
  | leafSubclasses {model : Model} (reachable : Reachable model) (id : EntityId) :
      Reachable (model.leafSubclasses id).model
  | flattenedCopy {model : Model} (reachable : Reachable model) (policy : PathPolicy)
      (id : EntityId) (depth : Nat) : Reachable (model.flattenedCopy policy id depth).value
  | targetCopy {model : Model} (reachable : Reachable model) (id : EntityId) :
      Reachable (model.targetCopy id)
  | copyInheritances {model : Model} (reachable : Reachable model) (copies : EntityCopies)
      (exist : ∀ pair ∈ copies, model.HasEntity pair.2) :
      Reachable (model.copyInheritances copies).value
  | copyToTarget {model : Model} (reachable : Reachable model) (copies : EntityCopies)
      (exist : ∀ pair ∈ copies, model.HasEntity pair.2) :
      Reachable (model.copyToTarget copies).value.1
  | flattenModel {model : Model} (reachable : Reachable model) (entities : List EntityId)
      (policy : PathPolicy) (depth : Nat) :
      Reachable (model.flattenModel entities policy depth).value.model
  | targetSchema {model : Model} (reachable : Reachable model) (entities : List EntityId) :
      Reachable (model.targetSchema entities).value.model

end Model

/-! ## Edits in sequence -/

theorem Edit.noLarger_apply (model : Model) (edit : Edit) :
    Model.NoLarger model (edit.apply model) := by
  cases edit with
  | insertEntity entity => exact ⟨by simp [apply], Nat.le_refl _⟩
  | attachAttribute entity added =>
    have extended : Model.NoLarger model
        { model with attributes := model.attributes.push added } := ⟨Nat.le_refl _, Nat.le_refl _⟩
    exact Model.noLarger_modifyEntity extended _ _
  | removeAttribute entity removed => exact Model.noLarger_modifyEntity (.refl model) _ _
  | addAssociation added => exact model.noLarger_addAssociation added
  | removeAssociation entity removed => exact Model.noLarger_modifyEntity (.refl model) _ _
  | linkInverse first second => exact model.noLarger_linkInverse first second
  | addOperation added =>
    have extended : Model.NoLarger model
        { model with operations := model.operations.push added } := ⟨Nat.le_refl _, Nat.le_refl _⟩
    exact Model.noLarger_modifyEntity extended _ _
  | addInvariant added =>
    have extended : Model.NoLarger model
        { model with invariants := model.invariants.push added } := ⟨Nat.le_refl _, Nat.le_refl _⟩
    exact Model.noLarger_modifyEntity extended _ _
  | setSuperclass child parent => exact (model.sameButLinks_setSuperclass child parent).noLarger
  | addParent child parent => exact (model.sameButLinks_addParent child parent).noLarger
  | removeGeneralization parent child =>
    exact (model.sameButLinks_removeGeneralization parent child).noLarger

namespace Model

theorem noLarger_foldl_apply (model : Model) (edits : List Edit) :
    NoLarger model (edits.foldl Edit.apply model) := by
  induction edits generalizing model with
  | nil => exact .refl model
  | cons edit rest ih => exact (edit.noLarger_apply model).trans (ih (edit.apply model))

theorem Leads.apply {model next : Model} (leads : Leads model next) (edit : Edit)
    (fits : edit.Fits next) : Leads model (edit.apply next) :=
  leads.tail (.edit edit fits)

/-- Edits each of which fits the model that the earlier ones leave. -/
def EditsFit (model : Model) : List Edit → Prop
  | [] => True
  | edit :: rest => edit.Fits model ∧ EditsFit (edit.apply model) rest

instance (model : Model) (edits : List Edit) : Decidable (EditsFit model edits) :=
  match edits with
  | [] => .isTrue trivial
  | edit :: rest =>
    haveI : Decidable (EditsFit (edit.apply model) rest) :=
      instDecidableEditsFit (edit.apply model) rest
    inferInstanceAs (Decidable (edit.Fits model ∧ EditsFit (edit.apply model) rest))

theorem EditsFit.leads {model : Model} {edits : List Edit} (fit : EditsFit model edits) :
    Leads model (edits.foldl Edit.apply model) := by
  induction edits generalizing model with
  | nil => exact .refl
  | cons edit rest ih => exact .head (.edit edit fit.1) (ih fit.2)

theorem Reachable.of_leads {model next : Model} (reachable : model.Reachable)
    (leads : Leads model next) : next.Reachable := by
  induction leads with
  | refl => exact reachable
  | tail _ changes ih => exact ih.change changes

end Model

end ClassModel
