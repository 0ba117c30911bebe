import ClassModel.Copies.Flatten
import ClassModel.Proofs.Features.Enumeration
import ClassModel.Proofs.Inheritance.Agreement
import ClassModel.Proofs.Inheritance.Chain
import ClassModel.Proofs.Model.FarEnds

/-! Features of an entity while the model grows.

Whatever is found on the way from an entity is there already when all references of the model are.
So the features, paths and flattened attributes of an entity are the same in a larger model.
-/

set_option autoImplicit false

namespace ClassModel

theorem Path.mem_roles {path : Path} {role : AssociationId} :
    role ∈ path.roles ↔ .role role ∈ path := by
  unfold Path.roles
  rw [List.mem_filterMap]
  constructor
  · rintro ⟨step, member, found⟩
    cases step with
    | role id =>
      cases found
      exact member
    | _ => cases found
  · exact fun member => ⟨_, member, rfl⟩

namespace Model

/-- All that is looked up on the way through a model is there. -/
structure Complete (model : Model) : Prop where
  parents : ∀ child parent, model.superclass child = some parent → model.HasEntity parent
  attributes : ∀ id, ∀ listed ∈ (model.entityAt id).attributes, model.HasAttribute listed
  associations : ∀ id, ∀ listed ∈ (model.entityAt id).associations, model.HasAssociation listed
  farEnds : model.FarEndsExist

theorem Reachable.complete {model : Model} (reachable : model.Reachable)
    (farEnds : model.FarEndsExist) : Complete model where
  parents := reachable.linksSound.agree.superclassesExist
  attributes id _ member :=
    reachable.listsApart.inRange .attributes id _ (List.mem_map_of_mem member)
  associations id _ member :=
    reachable.listsApart.inRange .associations id _ (List.mem_map_of_mem member)
  farEnds := farEnds

theorem Complete.hasEntity_of_mem_chainThrough {model : Model} (complete : model.Complete)
    {remaining : List EntityId} {id member : EntityId} (existing : model.HasEntity id)
    (inside : member ∈ model.chainThrough remaining id) : model.HasEntity member := by
  fun_induction chainThrough model remaining id with
  | case1 => exact List.mem_singleton.mp inside ▸ existing
  | case2 remaining id parent named _ ih =>
    rcases List.mem_cons.mp inside with rfl | further
    · exact existing
    · exact ih (complete.parents id parent named) further
  | case3 => exact List.mem_singleton.mp inside ▸ existing

section

variable {before after : Model}

theorem Extends.superclass (kept : Extends before after) {id : EntityId}
    (existing : before.HasEntity id) : after.superclass id = before.superclass id :=
  congrArg Entity.superclass (kept.entityAt existing)

-- The larger model has more entities to walk through, but the chain never comes to one of them.
theorem Extends.chainThrough (kept : Extends before after) (complete : before.Complete)
    {few many : List EntityId} (fewOnce : few.Nodup) (manyOnce : many.Nodup)
    (same : ∀ id, before.HasEntity id → (id ∈ many ↔ id ∈ few)) {id : EntityId}
    (existing : before.HasEntity id) :
    after.chainThrough many id = before.chainThrough few id := by
  fun_induction Model.chainThrough before few id generalizing many with
  | case1 few id none =>
    unfold Model.chainThrough
    simp [kept.superclass existing, none]
  | case2 few id parent named fresh ih =>
    have there := complete.parents id parent named
    have freshToo : parent ∈ many := (same parent there).mpr fresh
    rw [Model.chainThrough]
    simp only [kept.superclass existing, named, freshToo, dite_true, List.cons.injEq, true_and]
    refine ih (fewOnce.erase parent) (manyOnce.erase parent) (fun other existing => ?_) there
    rw [fewOnce.mem_erase_iff, manyOnce.mem_erase_iff, same other existing]
  | case3 few id parent named passed =>
    have passedToo : parent ∉ many :=
      fun fresh => passed ((same parent (complete.parents id parent named)).mp fresh)
    rw [Model.chainThrough]
    simp [kept.superclass existing, named, passedToo]

theorem Extends.superclassChain (kept : Extends before after) (complete : before.Complete)
    {id : EntityId} (existing : before.HasEntity id) :
    after.superclassChain id = before.superclassChain id := by
  refine kept.chainThrough complete (before.nodup_entityIds.erase id)
    (after.nodup_entityIds.erase id) (fun other existing => ?_) existing
  have there : other ∈ before.entityIds := (before.mem_entityIds other).mpr existing
  have thereToo : other ∈ after.entityIds :=
    (after.mem_entityIds other).mpr (kept.hasEntity existing)
  rw [before.nodup_entityIds.mem_erase_iff, after.nodup_entityIds.mem_erase_iff]
  simp [there, thereToo]

-- What is collected along a chain is collected from entities that stay as they are.
theorem Extends.flatMap_superclassChain (kept : Extends before after) (complete : before.Complete)
    {Found : Type} (listOf : Entity → List Found) {id : EntityId}
    (existing : before.HasEntity id) :
    ((after.superclassChain id).flatMap fun entity => listOf (after.entityAt entity)) =
      (before.superclassChain id).flatMap fun entity => listOf (before.entityAt entity) := by
  rw [kept.superclassChain complete existing]
  refine List.flatMap_congr fun entity member => ?_
  rw [kept.entityAt (complete.hasEntity_of_mem_chainThrough existing member)]

theorem Extends.definedAttributes (kept : Extends before after) (complete : before.Complete)
    {id : EntityId} (existing : before.HasEntity id) :
    after.definedAttributes id = before.definedAttributes id :=
  kept.flatMap_superclassChain complete Entity.attributes existing

theorem Extends.definedAssociations (kept : Extends before after) (complete : before.Complete)
    {id : EntityId} (existing : before.HasEntity id) :
    after.definedAssociations id = before.definedAssociations id :=
  kept.flatMap_superclassChain complete Entity.associations existing

theorem Complete.hasAttribute_of_mem_definedAttributes (complete : before.Complete)
    {id : EntityId} {found : AttributeId} (member : found ∈ before.definedAttributes id) :
    before.HasAttribute found := by
  obtain ⟨entity, _, listed⟩ := List.mem_flatMap.mp member
  exact complete.attributes entity found listed

theorem Complete.hasAssociation_of_mem_definedAssociations (complete : before.Complete)
    {id : EntityId} {found : AssociationId} (member : found ∈ before.definedAssociations id) :
    before.HasAssociation found := by
  obtain ⟨entity, _, listed⟩ := List.mem_flatMap.mp member
  exact complete.associations entity found listed

/-! ## Paths -/

theorem Extends.far (kept : Extends before after) {role : AssociationId}
    (existing : before.HasAssociation role) : after.far role = before.far role :=
  congrArg Association.entity2 (kept.associationAt existing)

theorem Extends.crossesBoundary (kept : Extends before after) (complete : before.Complete)
    {id : EntityId} (existing : before.HasEntity id) {role : AssociationId}
    (there : before.HasAssociation role) :
    after.crossesBoundary id role = before.crossesBoundary id role := by
  unfold Model.crossesBoundary
  rw [kept.far there, kept.entityAt existing, kept.entityAt (complete.farEnds role there)]

theorem Extends.isForbiddenInverse (kept : Extends before after) {first second : AssociationId}
    (firstThere : before.HasAssociation first) (secondThere : before.HasAssociation second) :
    after.isForbiddenInverse first second = before.isForbiddenInverse first second := by
  simp only [Model.isForbiddenInverse, kept.associationAt firstThere,
    kept.associationAt secondThere]

theorem Extends.openRoles (kept : Extends before after) (complete : before.Complete)
    (policy : PathPolicy) {previous : Option AssociationId}
    (previousThere : ∀ role ∈ previous, before.HasAssociation role) {id : EntityId}
    (existing : before.HasEntity id) :
    after.openRoles policy previous id = before.openRoles policy previous id := by
  unfold Model.openRoles
  rw [kept.definedAssociations complete existing]
  refine List.filter_congr fun role member => ?_
  have there := complete.hasAssociation_of_mem_definedAssociations member
  rw [kept.crossesBoundary complete existing there]
  cases policy with
  | strict => rfl
  | allPaths =>
    cases previous with
    | none => rfl
    | some last => simp only [kept.isForbiddenInverse (previousThere last rfl) there]

-- The number of steps is the measure; every entity that is entered is there.
theorem Extends.pathsFrom (kept : Extends before after) (complete : before.Complete)
    (policy : PathPolicy) (steps : Nat) {previous : Option AssociationId}
    (previousThere : ∀ role ∈ previous, before.HasAssociation role) (seen : List EntityId)
    {id : EntityId} (existing : before.HasEntity id) :
    after.pathsFrom policy steps previous seen id =
      before.pathsFrom policy steps previous seen id := by
  induction steps generalizing previous seen id with
  | zero => rfl
  | succ steps ih =>
    simp only [Model.pathsFrom]
    rw [kept.definedAttributes complete existing,
      kept.openRoles complete policy previousThere existing]
    congr 1
    refine List.flatMap_congr fun role member => ?_
    have there : before.HasAssociation role :=
      complete.hasAssociation_of_mem_definedAssociations (List.mem_filter.mp member).1
    rw [kept.far there, ih (by rintro last ⟨⟩; exact there) _ (complete.farEnds role there)]

theorem Extends.composedPaths (kept : Extends before after) (complete : before.Complete)
    (policy : PathPolicy) {root : EntityId} (existing : before.HasEntity root)
    (seen : List EntityId) (steps : Nat) :
    after.composedPaths policy root seen steps = before.composedPaths policy root seen steps :=
  kept.pathsFrom complete policy steps (by simp) _ existing

/-! ## Features -/

/-- Whether a model has what a step goes through. -/
def HasStep (model : Model) : Step → Prop
  | .attribute id => model.HasAttribute id
  | .role id => model.HasAssociation id

theorem Complete.hasStep_of_offers (complete : before.Complete) {id : EntityId} {step : Step}
    (offered : before.Offers id step) : before.HasStep step := by
  cases offered with
  | ofAttribute defined => exact complete.hasAttribute_of_mem_definedAttributes defined
  | ofRole defined => exact complete.hasAssociation_of_mem_definedAssociations defined

theorem Complete.hasStep_of_route (complete : before.Complete) {id : EntityId} {path : Path}
    (route : before.Route id path) : ∀ step ∈ path, before.HasStep step := by
  induction route with
  | last offered =>
    intro step member
    rw [List.mem_singleton.mp member]
    exact complete.hasStep_of_offers offered
  | through offered _ ih =>
    intro step member
    rcases List.mem_cons.mp member with rfl | later
    · exact complete.hasStep_of_offers offered
    · exact ih step later

theorem Extends.stepName (kept : Extends before after) {step : Step} (there : before.HasStep step) :
    after.stepName step = before.stepName step :=
  match step, there with
  | .attribute _, there => congrArg Attribute.name (kept.attributeAt there)
  | .role _, there => congrArg Association.role2 (kept.associationAt there)

theorem Extends.roleFeature (kept : Extends before after) {role : AssociationId}
    (there : before.HasAssociation role) : after.roleFeature role = before.roleFeature role := by
  simp only [Model.roleFeature, kept.associationAt there]

section

variable (kept : Extends before after) {path : Path} (there : ∀ step ∈ path, before.HasStep step)

include kept there

theorem Extends.pathName : after.pathName path = before.pathName path := by
  unfold Model.pathName
  rw [List.map_congr_left fun step member => kept.stepName (there step member)]

theorem Extends.endOfPath : after.endOfPath path = before.endOfPath path := by
  unfold Model.endOfPath
  split
  · rename_i id last
    rw [kept.attributeAt (there _ (List.mem_of_getLast? last))]
  · rename_i id last
    rw [kept.roleFeature (there _ (List.mem_of_getLast? last))]
  · rfl

theorem Extends.branches : after.branches path = before.branches path := by
  unfold Model.branches
  rw [Bool.eq_iff_iff, List.any_eq_true, List.any_eq_true]
  refine exists_congr fun role => and_congr_right fun member => ?_
  have passed := (List.dropLast_sublist path).subset (Path.mem_roles.mp member)
  rw [kept.associationAt (there _ passed)]

theorem Extends.pathFeature (root : EntityId) :
    after.pathFeature root path = before.pathFeature root path := by
  simp only [Model.pathFeature, kept.pathName there, kept.endOfPath there, kept.branches there]

end

/-- A larger model gives an entity the same flattened attributes. -/
theorem Extends.flattenedAttributes (kept : Extends before after) (complete : before.Complete)
    (policy : PathPolicy) {id : EntityId} (existing : before.HasEntity id) (depth : Nat) :
    after.flattenedAttributes policy id depth = before.flattenedAttributes policy id depth := by
  have attributes : (before.definedAttributes id).map after.attributeAt =
      (before.definedAttributes id).map before.attributeAt :=
    List.map_congr_left fun found member =>
      kept.attributeAt (complete.hasAttribute_of_mem_definedAttributes member)
  have inside : (before.definedAssociations id).filter (fun role => !after.crossesBoundary id role) =
      (before.definedAssociations id).filter fun role => !before.crossesBoundary id role :=
    List.filter_congr fun role member => by
      rw [kept.crossesBoundary complete existing
        (complete.hasAssociation_of_mem_definedAssociations member)]
  unfold Model.flattenedAttributes reachableAttributes
  rw [kept.definedAttributes complete existing, kept.definedAssociations complete existing,
    kept.composedPaths complete policy existing, attributes, inside]
  congr 2
  · congr 1
    refine List.map_congr_left fun role member => ?_
    rw [kept.roleFeature
      (complete.hasAssociation_of_mem_definedAssociations (List.mem_filter.mp member).1)]
  · refine List.map_congr_left fun path member => ?_
    have route := (mem_pathsFrom.mp (List.mem_filter.mp member).1).route
    rw [kept.pathFeature (complete.hasStep_of_route route)]

end

end Model

end ClassModel
