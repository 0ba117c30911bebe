import ClassModel.Proofs.Copies.Insertion
import ClassModel.Proofs.Model.Histories

/-! Associations that lead somewhere.

An edit may add an association to a number that no entity has yet, and the association then leads to
whatever is created under that number. As long as no edit does so, all associations of the model lead
to entities of it, and every operation keeps it that way.
-/

set_option autoImplicit false

namespace ClassModel

namespace Model

/-- All associations lead to numbers below a bound. -/
def FarEndsBelow (bound : Nat) (model : Model) : Prop :=
  ∀ role, model.HasAssociation role → (model.far role).index < bound

/-- Every association leads to an entity of the model. -/
def FarEndsExist (model : Model) : Prop :=
  ∀ role, model.HasAssociation role → model.HasEntity (model.far role)

theorem FarEndsExist.below {model : Model} (farEnds : model.FarEndsExist) {bound : Nat}
    (grown : model.entityCount ≤ bound) : model.FarEndsBelow bound :=
  fun role there => Nat.lt_of_lt_of_le (farEnds role there) grown

end Model

/-! ## Edits -/

/-- Whether an edit adds no association that leads to the bound or beyond. -/
def Edit.LeadsBelow (bound : Nat) : Edit → Prop
  | .addAssociation added => added.entity2.index < bound
  | _ => True

instance (bound : Nat) : (edit : Edit) → Decidable (edit.LeadsBelow bound)
  | .addAssociation added => inferInstanceAs (Decidable (added.entity2.index < bound))
  | .insertEntity _ | .attachAttribute _ _ | .removeAttribute _ _ | .removeAssociation _ _
  | .linkInverse _ _ | .addOperation _ | .addInvariant _ | .setSuperclass _ _ | .addParent _ _
  | .removeGeneralization _ _ => .isTrue trivial

theorem Edit.LeadsBelow.mono {bound larger : Nat} {edit : Edit} (leads : edit.LeadsBelow bound)
    (grown : bound ≤ larger) : edit.LeadsBelow larger := by
  cases edit with
  | addAssociation added => exact Nat.lt_of_lt_of_le leads grown
  | _ => trivial

namespace Model

namespace FarEndsBelow

variable {bound : Nat} {model : Model} (farEnds : model.FarEndsBelow bound)

include farEnds

theorem of_associations {after : Model} (same : after.associations = model.associations) :
    after.FarEndsBelow bound := by
  simpa only [FarEndsBelow, HasAssociation, far, associationAt, same] using farEnds

theorem addAssociation {added : Association} (below : added.entity2.index < bound) :
    (model.addAssociation added).FarEndsBelow bound := by
  intro role there
  have size : role.index < model.associations.size + 1 := by
    simpa [HasAssociation, Model.addAssociation, modifyEntity] using there
  by_cases old : role.index < model.associations.size
  · have same : (model.addAssociation added).far role = model.far role :=
      congrArg Association.entity2 (((Keeps.refl model.associations).push added).getD_eq old _)
    rw [same]
    exact farEnds role old
  · have last : role.index = model.associations.size := by omega
    simpa [far, associationAt, Model.addAssociation, modifyEntity, last] using below

theorem linkInverse (first second : AssociationId) :
    (model.linkInverse first second).FarEndsBelow bound := by
  intro role there
  rw [far_linkInverse]
  exact farEnds role (by simpa [HasAssociation, Model.linkInverse, modifyAssociation] using there)

theorem edit {edit : Edit} (leads : edit.LeadsBelow bound) :
    (edit.apply model).FarEndsBelow bound := by
  cases edit with
  | addAssociation added => exact farEnds.addAssociation leads
  | linkInverse first second => exact farEnds.linkInverse first second
  | setSuperclass child parent =>
    exact farEnds.of_associations (sameButLinks_setSuperclass model child parent).associations
  | addParent child parent =>
    exact farEnds.of_associations (sameButLinks_addParent model child parent).associations
  | _ => exact farEnds.of_associations rfl

theorem edits {edits : List Edit} (lead : ∀ edit ∈ edits, edit.LeadsBelow bound) :
    (edits.foldl Edit.apply model).FarEndsBelow bound := by
  induction edits generalizing model with
  | nil => exact farEnds
  | cons edit rest ih =>
    exact ih (farEnds.edit (lead edit List.mem_cons_self))
      fun later member => lead later (List.mem_cons_of_mem _ member)

end FarEndsBelow

end Model

/-! ## Loading -/

namespace Document

section

variable {scope : Scope} {bound : Nat}

theorem EntityDecl.leadsBelow_creation (provenance : Provenance) (decls : List EntityDecl) :
    ∀ edit ∈ (Script.ofList (EntityDecl.creation provenance) decls).edits,
      edit.LeadsBelow bound := by
  rw [edits_creation]
  intro edit member
  obtain ⟨decl, _, rfl⟩ := List.mem_map.mp member
  trivial

theorem EntityDecl.leadsBelow_generalization (decl : EntityDecl) :
    ∀ edit ∈ (decl.generalization scope).edits, edit.LeadsBelow bound := by
  intro edit member
  obtain ⟨parent, _, rfl | rfl⟩ := decl.mem_edits_generalization member <;> trivial

theorem EntityDecl.leadsBelow_features (decl : EntityDecl) :
    ∀ edit ∈ (decl.features scope).edits, edit.LeadsBelow bound := by
  intro edit member
  rcases decl.mem_edits_features member with ⟨declared, _, inside⟩ | ⟨operation, _, inside⟩ |
    ⟨rule, _, rfl⟩
  · obtain ⟨added, _, rfl⟩ := declared.mem_edits_script inside
    trivial
  · obtain ⟨added, _, rfl⟩ := operation.mem_edits_script inside
    trivial
  · trivial

theorem AssociationDecl.leadsBelow_script
    (numbered : scope.first.index + scope.names.length ≤ bound) (decl : AssociationDecl) :
    ∀ edit ∈ (decl.script scope).edits, edit.LeadsBelow bound := by
  intro edit member
  obtain ⟨added, rfl, described⟩ := decl.mem_edits_script member
  exact Nat.lt_of_lt_of_le (Scope.has_of_resolve described.far).2 numbered

theorem AssociationDecl.leadsBelow_inverseLink (first : AssociationId)
    (decls : List AssociationDecl) (decl : AssociationDecl) :
    ∀ edit ∈ (inverseLink scope first decls decl).edits, edit.LeadsBelow bound := by
  rw [edits_inverseLink]
  intro edit member
  obtain ⟨link, _, rfl⟩ := List.mem_map.mp member
  trivial

end

theorem leadsBelow_script (document : Document) (model : Model) (provenance : Provenance) :
    ∀ edit ∈ (document.script model provenance).edits,
      edit.LeadsBelow (model.entityCount + document.entities.length) := by
  have numbered : (document.scopeIn model).first.index + (document.scopeIn model).names.length ≤
      model.entityCount + document.entities.length := by
    simp [scopeIn, Model.nextEntity, Model.entityCount]
  exact Script.forall_andThen (EntityDecl.leadsBelow_creation provenance _) <|
    Script.forall_andThen (Script.forall_ofList fun decl _ => decl.leadsBelow_generalization) <|
    Script.forall_andThen (Script.forall_ofList fun decl _ => decl.leadsBelow_features) <|
    Script.forall_andThen (Script.forall_ofList fun decl _ => decl.leadsBelow_script numbered) <|
    Script.forall_andThen (Script.forall_ofList fun decl _ => decl.leadsBelow_inverseLink _ _)
      (by simp)

end Document

namespace Model

-- The entities come first, so they are there however far the loading gets.
theorem entityCount_load (model : Model) (document : Document) (provenance : Provenance) :
    model.entityCount + document.entities.length ≤
      (model.load document provenance).model.entityCount := by
  let creation := Script.ofList (Document.EntityDecl.creation provenance) document.entities
  have created : model.entityCount + document.entities.length =
      (creation.result model).entityCount := by
    rw [← document.numbered_scopeIn model provenance]
    simp [Document.scopeIn, nextEntity, entityCount]
  have complete : creation.failure = none := Script.failure_ofList_eq_none.mpr fun _ _ => rfl
  rw [load_model, created, Document.script, Script.result_andThen_of_failure_none _ _ _ complete]
  exact (Script.noLarger_result _ _).entities

theorem FarEndsExist.load {model : Model} (farEnds : model.FarEndsExist) (document : Document)
    (provenance : Provenance) : (model.load document provenance).model.FarEndsExist := by
  have below : (model.load document provenance).model.FarEndsBelow
      (model.entityCount + document.entities.length) := by
    rw [load_model]
    exact (farEnds.below (Nat.le_add_right _ _)).edits
      (document.leadsBelow_script model provenance)
  exact fun role there =>
    Nat.lt_of_lt_of_le (below role there) (model.entityCount_load document provenance)

/-! ## Repair and copies -/

theorem sameButLinks_visit (levels : Nat) (branch : List EntityId) (walk : SubclassWalk)
    (parent : EntityId) : SameButLinks walk.model (walk.visit levels branch parent).model := by
  induction levels generalizing branch walk parent with
  | zero => exact .refl walk.model
  | succ levels ih =>
    unfold SubclassWalk.visit
    refine List.foldlRecOn
      (motive := fun state : SubclassWalk => SameButLinks walk.model state.model) _ _
      (.refl walk.model) ?_
    intro state same child _
    split
    · exact same.trans (sameButLinks_removeGeneralization _ parent child)
    · have further := ih (child :: branch) (state.find child) child
      rw [SubclassWalk.find_model] at further
      exact same.trans further

namespace FarEndsExist

variable {model : Model} (farEnds : model.FarEndsExist)

include farEnds

theorem of_associations {after : Model} (grown : model.entityCount ≤ after.entityCount)
    (same : after.associations = model.associations) : after.FarEndsExist :=
  (farEnds.below grown).of_associations same

theorem sameButLinks {after : Model} (same : SameButLinks model after) : after.FarEndsExist :=
  farEnds.of_associations same.noLarger.entities same.associations

theorem inserted {entity : Entity} {attributes : List Attribute} {after : Model}
    (inserted : Inserted model entity attributes after) : after.FarEndsExist :=
  farEnds.of_associations inserted.kept.entities.size_le inserted.associations

theorem allSubclasses (id : EntityId) : (model.allSubclasses id).model.FarEndsExist :=
  farEnds.sameButLinks (sameButLinks_visit _ [id] { model } id)

theorem leafSubclasses (id : EntityId) : (model.leafSubclasses id).model.FarEndsExist :=
  (farEnds.allSubclasses id).of_associations
    (Nat.le_of_eq (entityCount_modifyEntity _ _ _).symm) rfl

theorem flattenedCopy (policy : PathPolicy) (id : EntityId) (depth : Nat) :
    (model.flattenedCopy policy id depth).value.FarEndsExist :=
  farEnds.inserted (model.inserted_flattenedCopy policy id depth)

theorem targetCopy (id : EntityId) : (model.targetCopy id).FarEndsExist :=
  farEnds.inserted (model.inserted_targetCopy id)

theorem copyInheritances (copies : EntityCopies) :
    (model.copyInheritances copies).value.FarEndsExist :=
  farEnds.sameButLinks (carriesLinks_copyInheritances model copies).sameButLinks

-- The associations that are added lead to copies.
theorem copyToTarget {copies : EntityCopies} (exist : ∀ pair ∈ copies, model.HasEntity pair.2) :
    (model.copyToTarget copies).value.1.FarEndsExist := by
  have carried := carriesAssociations_copyToTarget model copies
  suffices below : (model.copyToTarget copies).value.1.FarEndsBelow model.entityCount from
    fun role there => Nat.lt_of_lt_of_eq (below role there) carried.sameLabels.count.symm
  have start : model.FarEndsBelow model.entityCount := farEnds
  generalize (model.copyToTarget copies).value.1 = after at carried
  induction carried with
  | refl => exact start
  | tail _ step ih =>
    cases step with
    | add _ far =>
      obtain ⟨pair, among, same⟩ := far
      exact ih.addAssociation (same ▸ exist pair among)
    | link => exact ih.linkInverse _ _
    | retarget => exact ih.of_associations rfl

theorem flattenModel (entities : List EntityId) (policy : PathPolicy) (depth : Nat) :
    (model.flattenModel entities policy depth).value.model.FarEndsExist :=
  (holds_copyEach FarEndsExist (fun model id => model.flattenedCopy policy id depth)
    (fun farEnds id => farEnds.flattenedCopy policy id depth) farEnds
    (model.superclassFirstOrder entities)).copyInheritances _

theorem targetSchema (entities : List EntityId) :
    (model.targetSchema entities).value.model.FarEndsExist := by
  let order := model.superclassFirstOrder entities
  let copying := (Model.copyEach (fun model id => pure (model.targetCopy id)) model order).value
  have copied : copying.model.FarEndsExist :=
    holds_copyEach FarEndsExist _ (fun farEnds id => farEnds.targetCopy id) farEnds order
  obtain ⟨_, exist⟩ := leads_copyEach copies_targetCopy model order
  have linked := (carriesLinks_copyInheritances copying.model copying.copies).sameButLinks
  exact (copied.copyInheritances copying.copies).copyToTarget fun pair member =>
    Nat.lt_of_lt_of_le (exist pair member) linked.noLarger.entities

end FarEndsExist

/-! ## Models without loose ends -/

/-- A reachable model in whose history no association ever led out of the model: edits that name
only entities that are there reach no other. -/
inductive Intact : Model → Prop where
  | empty : Intact .empty
  | change {model next : Model} (intact : Intact model) (changes : Changes model next)
      (farEnds : next.FarEndsExist) : Intact next
  | load {model : Model} (intact : Intact model) (document : Document) (provenance : Provenance) :
      Intact (model.load document provenance).model
  | allSubclasses {model : Model} (intact : Intact model) (id : EntityId) :
      Intact (model.allSubclasses id).model
  | leafSubclasses {model : Model} (intact : Intact model) (id : EntityId) :
      Intact (model.leafSubclasses id).model
  | flattenedCopy {model : Model} (intact : Intact model) (policy : PathPolicy) (id : EntityId)
      (depth : Nat) : Intact (model.flattenedCopy policy id depth).value
  | targetCopy {model : Model} (intact : Intact model) (id : EntityId) :
      Intact (model.targetCopy id)
  | copyInheritances {model : Model} (intact : Intact model) (copies : EntityCopies)
      (exist : ∀ pair ∈ copies, model.HasEntity pair.2) :
      Intact (model.copyInheritances copies).value
  | copyToTarget {model : Model} (intact : Intact model) (copies : EntityCopies)
      (exist : ∀ pair ∈ copies, model.HasEntity pair.2) :
      Intact (model.copyToTarget copies).value.1
  | flattenModel {model : Model} (intact : Intact model) (entities : List EntityId)
      (policy : PathPolicy) (depth : Nat) :
      Intact (model.flattenModel entities policy depth).value.model
  | targetSchema {model : Model} (intact : Intact model) (entities : List EntityId) :
      Intact (model.targetSchema entities).value.model

theorem Intact.reachable {model : Model} (intact : model.Intact) : model.Reachable := by
  induction intact with
  | empty => exact .empty
  | change _ changes _ ih => exact ih.change changes
  | load _ document provenance ih => exact ih.load document provenance
  | allSubclasses _ id ih => exact ih.allSubclasses id
  | leafSubclasses _ id ih => exact ih.leafSubclasses id
  | flattenedCopy _ policy id depth ih => exact ih.flattenedCopy policy id depth
  | targetCopy _ id ih => exact ih.targetCopy id
  | copyInheritances _ copies exist ih => exact ih.copyInheritances copies exist
  | copyToTarget _ copies exist ih => exact ih.copyToTarget copies exist
  | flattenModel _ entities policy depth ih => exact ih.flattenModel entities policy depth
  | targetSchema _ entities ih => exact ih.targetSchema entities

theorem Intact.farEndsExist {model : Model} (intact : model.Intact) : model.FarEndsExist := by
  induction intact with
  | empty => exact fun role there => absurd there (Nat.not_lt_zero _)
  | change _ _ farEnds => exact farEnds
  | load _ document provenance ih => exact ih.load document provenance
  | allSubclasses _ id ih => exact ih.allSubclasses id
  | leafSubclasses _ id ih => exact ih.leafSubclasses id
  | flattenedCopy _ policy id depth ih => exact ih.flattenedCopy policy id depth
  | targetCopy _ id ih => exact ih.targetCopy id
  | copyInheritances _ copies _ ih => exact ih.copyInheritances copies
  | copyToTarget _ copies exist ih => exact ih.copyToTarget exist
  | flattenModel _ entities policy depth ih => exact ih.flattenModel entities policy depth
  | targetSchema _ entities ih => exact ih.targetSchema entities

-- Fitting edits whose associations lead to entities that are there already.
theorem Intact.of_edits {model : Model} (intact : model.Intact) {edits : List Edit}
    (fit : EditsFit model edits) (lead : ∀ edit ∈ edits, edit.LeadsBelow model.entityCount) :
    (edits.foldl Edit.apply model).Intact := by
  induction edits generalizing model with
  | nil => exact intact
  | cons edit rest ih =>
    have grown := (edit.noLarger_apply model).entities
    have farEnds : (edit.apply model).FarEndsBelow model.entityCount :=
      FarEndsBelow.edit intact.farEndsExist (lead edit List.mem_cons_self)
    have changed : (edit.apply model).Intact := intact.change (.edit edit fit.1)
      fun role there => Nat.lt_of_lt_of_le (farEnds role there) grown
    exact ih changed fit.2 fun later member =>
      (lead later (List.mem_cons_of_mem _ member)).mono grown

end Model

end ClassModel
