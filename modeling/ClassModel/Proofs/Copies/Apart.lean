import ClassModel.Proofs.Copies.Carrying
import ClassModel.Proofs.Copies.Insertion

/-! Models that have grown apart from the one they started as.

Everything that was there is unchanged, and what is new does not lead back: new entities have new
superclasses and list new attributes. Copying keeps it that way, since it edits copies only.
-/

set_option autoImplicit false

namespace ClassModel.Model

/-- All of the first model is in the second, and no edit of a new entity gets back to it. -/
structure GrownApart (start model : Model) : Prop where
  kept : start.Extends model
  /-- Taking a superclass away unlists the child there. -/
  superclasses : ∀ id, ¬ start.HasEntity id → ∀ parent ∈ model.superclass id,
    ¬ start.HasEntity parent
  /-- Retargeting changes the listed attributes. -/
  attributes : ∀ id, ¬ start.HasEntity id → ∀ listed ∈ (model.entityAt id).attributes,
    ¬ start.HasAttribute listed

namespace GrownApart

variable {start model : Model}

theorem refl (model : Model) : GrownApart model model where
  kept := .refl model
  superclasses id missing parent named := by
    simp [superclass, entityAt_of_not_hasEntity _ _ missing, default, Entity.named] at named
  attributes id missing listed member := by
    simp [entityAt_of_not_hasEntity _ _ missing, default, Entity.named] at member

theorem of_entities (apart : GrownApart start model) {after : Model} (kept : start.Extends after)
    (same : after.entities = model.entities) : GrownApart start after where
  kept := kept
  superclasses id new := by
    simpa only [superclass, entityAt, same] using apart.superclasses id new
  attributes id new := by simpa only [entityAt, same] using apart.attributes id new

-- The new entity starts without a superclass, and its attributes are new to the larger model.
theorem inserted (apart : GrownApart start model) {entity : Entity} {attributes : List Attribute}
    {after : Model} (inserted : Inserted model entity attributes after)
    (orphan : entity.superclass = none) : GrownApart start after where
  kept := apart.kept.trans inserted.kept
  superclasses id new parent named := by
    by_cases there : model.HasEntity id
    · rw [superclass, inserted.kept.entityAt there] at named
      exact apart.superclasses id new parent named
    · by_cases added : after.HasEntity id
      · have none : after.superclass model.nextEntity = none :=
          (congrArg Entity.superclass inserted.entity).trans orphan
        rw [inserted.eq_nextEntity added there, none] at named
        cases named
      · exact absurd named (by
          simp [superclass, entityAt_of_not_hasEntity _ _ added, default, Entity.named])
  attributes id new listed member := by
    by_cases there : model.HasEntity id
    · rw [inserted.kept.entityAt there] at member
      exact apart.attributes id new listed member
    · by_cases added : after.HasEntity id
      · rw [inserted.eq_nextEntity added there] at member
        exact fun old => (inserted.listed listed member).2 (apart.kept.hasAttribute old)
      · exact absurd member (by
          simp [entityAt_of_not_hasEntity _ _ added, default, Entity.named])

/-! ## Edits of new entities -/

section

variable (apart : GrownApart start model) {id : EntityId} (new : ¬ start.HasEntity id)

include apart new

theorem modifyEntity (change : Entity → Entity)
    (superclasses : ∀ entity, ∀ parent ∈ (change entity).superclass,
      parent ∈ entity.superclass ∨ ¬ start.HasEntity parent)
    (attributes : ∀ entity, (change entity).attributes = entity.attributes) :
    GrownApart start (model.modifyEntity id change) where
  kept := apart.kept.modifyEntity new change
  superclasses asked askedNew parent named := by
    rw [superclass, entityAt_modifyEntity] at named
    split at named
    · rcases superclasses _ parent named with before | now
      · exact apart.superclasses asked askedNew parent before
      · exact now
    · exact apart.superclasses asked askedNew parent named
  attributes asked askedNew listed member := by
    rw [part_modifyEntity Entity.attributes model id asked change attributes] at member
    exact apart.attributes asked askedNew listed member

theorem listChild (child : EntityId) : GrownApart start (model.listChild id child) := by
  refine apart.modifyEntity new _ (fun entity parent named => .inl ?_) fun entity => ?_
  · split at named <;> exact named
  · split <;> rfl

theorem unlistChild (child : EntityId) : GrownApart start (model.unlistChild id child) :=
  apart.modifyEntity new _ (fun _ _ named => .inl named) fun _ => rfl

theorem clearSuperclass : GrownApart start (model.clearSuperclass id) := by
  unfold Model.clearSuperclass
  split
  · exact apart
  · rename_i old named
    have cleared : GrownApart start (model.modifyEntity id ({ · with superclass := none })) :=
      apart.modifyEntity new _ (fun _ _ named => by cases named) fun _ => rfl
    dsimp only
    split
    · exact cleared
    · exact cleared.unlistChild (apart.superclasses id new old named) id

theorem setSuperclass {parent : EntityId} (parentNew : ¬ start.HasEntity parent) :
    GrownApart start (model.setSuperclass id (some parent)) := by
  have named : GrownApart start
      ((model.clearSuperclass id).modifyEntity id ({ · with superclass := some parent })) := by
    refine (apart.clearSuperclass new).modifyEntity new _ (fun _ named => ?_) fun _ => rfl
    rintro ⟨⟩
    exact .inr parentNew
  exact named.listChild parentNew id

theorem addParent {parent : EntityId} (parentNew : ¬ start.HasEntity parent) :
    GrownApart start (model.addParent id parent) := by
  unfold Model.addParent
  split
  · exact apart
  · have named : GrownApart start (model.modifyEntity id
        fun entity => { entity with parents := entity.parents ++ [parent] }) :=
      apart.modifyEntity new _ (fun _ _ named => .inl named) fun _ => rfl
    exact named.listChild parentNew id

end

theorem addAssociation (apart : GrownApart start model) {added : Association}
    (new : ¬ start.HasEntity added.entity1) : GrownApart start (model.addAssociation added) := by
  have pushed : GrownApart start
      { model with associations := model.associations.push added } :=
    apart.of_entities { apart.kept with associations := apart.kept.associations.push added } rfl
  exact pushed.modifyEntity new _ (fun _ _ named => .inl named) fun _ => rfl

/-! ## Carrying over -/

variable {copies : EntityCopies} (new : ∀ copy, copies.HasCopy copy → ¬ start.HasEntity copy)

include new

theorem carriesLinks (apart : GrownApart start model) {after : Model}
    (carried : CarriesLinks copies model after) : GrownApart start after := by
  induction carried with
  | refl => exact apart
  | tail _ step ih =>
    cases step with
    | superclass child parent => exact ih.setSuperclass (new _ child) (new _ parent)
    | parent child parent => exact ih.addParent (new _ child) (new _ parent)

-- The associations that are linked are newer than the model in which the carrying over began.
theorem carriesAssociations (apart : GrownApart start model) {begun after : Model}
    (later : start.Extends begun) (carried : CarriesAssociations copies begun model after) :
    GrownApart start after := by
  induction carried with
  | refl => exact apart
  | tail _ step ih =>
    cases step with
    | add near _ => exact ih.addAssociation (new _ near)
    | link _ firstNew _ secondNew =>
      exact ih.of_entities (ih.kept.linkInverse
        (fun old => firstNew (later.associations.lt_size old))
        (fun old => secondNew (later.associations.lt_size old))) (entities_linkInverse _ _ _)
    | retarget copied listed change =>
      exact ih.of_entities
        (ih.kept.modifyAttribute (ih.attributes _ (new _ copied) _ listed) change) rfl

end GrownApart

end ClassModel.Model
