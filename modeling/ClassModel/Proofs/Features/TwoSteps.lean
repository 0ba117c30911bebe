import ClassModel.Features.Nonlocal
import ClassModel.Proofs.Features.Enumeration
import ClassModel.Proofs.Lists

/-! Nonlocal features among the composed paths.

Both go two steps from an entity. Nonlocal features start with own associations only and may leave
the side of the entity; composed paths start with inherited ones as well and may follow a role by
itself. Apart from that they are the same paths, in one order.
-/

set_option autoImplicit false

namespace ClassModel

/-- One role that is followed by itself. -/
def Path.isRepeatedRole : Path → Bool
  | [.role first, .role second] => first == second
  | _ => false

namespace Model

/-- Whether one of the roles of a path crosses between source and target from the entity that the
path has reached. -/
def crossesAlong (model : Model) : EntityId → Path → Bool
  | _, [] => false
  | id, .attribute _ :: rest => model.crossesAlong id rest
  | id, .role role :: rest =>
    model.crossesBoundary id role || model.crossesAlong (model.far role) rest

/-- Whether a path starts with an own association of an entity. -/
def startsOwn (model : Model) (id : EntityId) (path : Path) : Bool :=
  path.firstRole?.any (model.entityAt id).associations.contains

/-- The paths of two steps through a role that stay on the side of its far entity, without the role
itself and what leads straight back. -/
def pathsBeyond (model : Model) (role : AssociationId) : List Path :=
  let far := model.far role
  (model.definedAttributes far).map (fun last => [.role role, .attribute last]) ++
    ((model.definedAssociations far).filter fun next => !model.crossesBoundary far next &&
      (next != role && !model.isForbiddenInverse role next)).map fun next =>
        [.role role, .role next]

variable {model : Model} {id : EntityId}

/-! ## One role -/

theorem filter_pathsThrough (role : AssociationId) :
    (model.pathsThrough role).filter (fun path => !model.crossesAlong id path) =
      if !model.crossesBoundary id role then model.pathsBeyond role else [] := by
  have crossesFirst : ∀ step, model.crossesAlong id [.role role, step] =
      (model.crossesBoundary id role || model.crossesAlong (model.far role) [step]) :=
    fun _ => rfl
  have atLast : ∀ last, model.crossesAlong (model.far role) [.attribute last] = false :=
    fun _ => rfl
  have further : ∀ next, model.crossesAlong (model.far role) [.role next] =
      model.crossesBoundary (model.far role) next := fun _ => Bool.or_false _
  unfold pathsThrough pathsBeyond
  simp only [List.filter_append, List.filter_map, List.filter_filter, Function.comp_def,
    crossesFirst, atLast, further]
  cases model.crossesBoundary id role with
  | true => simp
  | false => simp

theorem pathsFrom_one (policy : PathPolicy) (previous : Option AssociationId)
    (seen : List EntityId) (id : EntityId) : model.pathsFrom policy 1 previous seen id =
      (model.definedAttributes id).map (fun last => [.attribute last]) ++
        (model.openRoles policy previous id).map fun role => [.role role] := by
  simp [pathsFrom, List.map_eq_flatMap]

/-- A path of two steps that starts with an own association and does not repeat it. -/
def isOwnTwoStep (model : Model) (id : EntityId) (path : Path) : Bool :=
  path.length == 2 && model.startsOwn id path && !path.isRepeatedRole

theorem filter_pathsFrom_one (seen : List EntityId) (role : AssociationId) :
    ([.role role] :: (model.pathsFrom .allPaths 1 (some role) seen (model.far role)).map
      (.role role :: ·)).filter (model.isOwnTwoStep id) =
        if (model.entityAt id).associations.contains role then model.pathsBeyond role else [] := by
  have single : model.isOwnTwoStep id [.role role] = false := rfl
  have atLast : ∀ last, model.isOwnTwoStep id [.role role, .attribute last] =
      (model.entityAt id).associations.contains role := fun _ => Bool.and_true _
  have further : ∀ next, model.isOwnTwoStep id [.role role, .role next] =
      ((model.entityAt id).associations.contains role && !(role == next)) := fun _ => rfl
  rw [List.filter_cons_of_neg (by simp [single]), pathsFrom_one]
  unfold openRoles pathsBeyond
  simp only [List.map_append, List.map_map, List.filter_append, List.filter_map,
    List.filter_filter, Function.comp_def, atLast, further]
  cases (model.entityAt id).associations.contains role with
  | false => simp
  | true =>
    congr 2
    · simp
    · refine List.filter_congr fun next _ => ?_
      rw [Bool.true_and, Bool.and_left_comm, bne, BEq.comm]

/-! ## All roles -/

-- The chain starts with the entity itself, and no association is in two lists.
theorem filter_definedAssociations (sound : ListsApart model) (id : EntityId) :
    (model.definedAssociations id).filter (model.entityAt id).associations.contains =
      (model.entityAt id).associations := by
  have once := sound.nodup_definedAssociations id
  obtain ⟨above, chain⟩ := List.head?_eq_some_iff.mp (model.head?_chainThrough
    (model.entityIds.erase id) id)
  rw [definedAssociations, superclassChain, chain, List.flatMap_cons] at once ⊢
  obtain ⟨_, _, apart⟩ := List.nodup_append.mp once
  have own : (model.entityAt id).associations.filter (model.entityAt id).associations.contains =
      (model.entityAt id).associations := List.filter_eq_self.mpr fun role member => by simpa
  have inherited : (above.flatMap fun entity => (model.entityAt entity).associations).filter
      (model.entityAt id).associations.contains = [] := by
    refine List.filter_eq_nil_iff.mpr fun role member listed => ?_
    exact apart role (List.contains_iff_mem.mp listed) role member rfl
  rw [List.filter_append, own, inherited, List.append_nil]

/-- The nonlocal features that stay on the side of an entity are its composed paths of two steps
that start with an own association and do not repeat it, in the same order. -/
theorem nonlocalFeatures_composed (reachable : model.Reachable) (id : EntityId) :
    ((model.nonlocalFeatures id).map Feature.path).filter
        (fun path => !model.crossesAlong id path) =
      (model.composedPaths .allPaths id [] 2).filter (model.isOwnTwoStep id) := by
  have paths : (model.nonlocalFeatures id).map Feature.path =
      (model.entityAt id).associations.flatMap model.pathsThrough := by
    rw [nonlocalFeatures, List.map_map]
    exact List.map_id _
  have attributes : ((model.definedAttributes id).map fun last => [Step.attribute last]).filter
      (model.isOwnTwoStep id) = [] := by
    simp [isOwnTwoStep, List.filter_map, Function.comp_def]
  have composed : (model.composedPaths .allPaths id [] 2).filter (model.isOwnTwoStep id) =
      (model.openRoles .allPaths none id).flatMap fun role =>
        if (model.entityAt id).associations.contains role then model.pathsBeyond role else [] := by
    rw [composedPaths, pathsFrom, List.filter_append, attributes, List.nil_append,
      List.filter_flatMap]
    exact List.flatMap_congr fun role _ => filter_pathsFrom_one _ role
  calc ((model.nonlocalFeatures id).map Feature.path).filter
        (fun path => !model.crossesAlong id path)
      = (model.entityAt id).associations.flatMap fun role =>
          if !model.crossesBoundary id role then model.pathsBeyond role else [] := by
        rw [paths, List.filter_flatMap]
        exact List.flatMap_congr fun role _ => filter_pathsThrough role
    _ = ((model.entityAt id).associations.filter fun role =>
          !model.crossesBoundary id role).flatMap model.pathsBeyond := flatMap_ite_nil _ _ _
    _ = ((model.openRoles .allPaths none id).filter
          (model.entityAt id).associations.contains).flatMap model.pathsBeyond := by
        rw [openRoles_none, List.filter_comm, filter_definedAssociations reachable.listsApart]
    _ = (model.composedPaths .allPaths id [] 2).filter (model.isOwnTwoStep id) := by
        rw [composed, flatMap_ite_nil]

/-- Persons with friends and a team, which is a group with a leader and a ledger on the target side.
From the beings above them they have a home. -/
def club : Model :=
  [Edit.insertEntity { Entity.named "Person" with provenance := .source },
    .insertEntity { Entity.named "Team" with provenance := .source },
    .insertEntity { Entity.named "Group" with provenance := .source },
    .insertEntity { Entity.named "Account" with provenance := .target },
    .insertEntity { Entity.named "Being" with provenance := .source },
    .setSuperclass ⟨0⟩ (some ⟨4⟩), .setSuperclass ⟨1⟩ (some ⟨2⟩),
    .attachAttribute ⟨2⟩ { name := "name", type := .primitive "String", owner := ⟨2⟩ },
    .addAssociation { entity1 := ⟨0⟩, entity2 := ⟨0⟩, role2 := "friends", card2 := .many },
    .addAssociation { entity1 := ⟨0⟩, entity2 := ⟨1⟩, role2 := "team" },
    .addAssociation { entity1 := ⟨1⟩, entity2 := ⟨0⟩, role2 := "members", card2 := .many },
    .linkInverse ⟨1⟩ ⟨2⟩,
    .addAssociation { entity1 := ⟨2⟩, entity2 := ⟨3⟩, role2 := "ledger" },
    .addAssociation { entity1 := ⟨2⟩, entity2 := ⟨0⟩, role2 := "leader" },
    .addAssociation { entity1 := ⟨4⟩, entity2 := ⟨1⟩, role2 := "home" }].foldl Edit.apply .empty

/-- The way back to the members is on neither list. The friends of friends and the paths from home
are composed only, and the ledger of the team is nonlocal only. -/
theorem nonlocalFeatures_club :
    club.Reachable ∧
      (club.nonlocalFeatures ⟨0⟩).map Feature.path = [[.role ⟨0⟩, .role ⟨1⟩],
        [.role ⟨0⟩, .role ⟨5⟩], [.role ⟨1⟩, .attribute ⟨0⟩], [.role ⟨1⟩, .role ⟨3⟩],
        [.role ⟨1⟩, .role ⟨4⟩]] ∧
      club.crossesAlong ⟨0⟩ [.role ⟨1⟩, .role ⟨3⟩] = true ∧
      [.role ⟨0⟩, .role ⟨0⟩] ∈ club.composedPaths .allPaths ⟨0⟩ [] 2 ∧
      ((club.nonlocalFeatures ⟨0⟩).map Feature.path).filter
          (fun path => !club.crossesAlong ⟨0⟩ path) =
        (club.composedPaths .allPaths ⟨0⟩ [] 2).filter (club.isOwnTwoStep ⟨0⟩) := by
  have reachable : club.Reachable := Reachable.empty.of_leads (EditsFit.leads (by decide))
  exact ⟨reachable, by decide +kernel, by decide +kernel, by decide +kernel,
    nonlocalFeatures_composed reachable ⟨0⟩⟩

end Model

end ClassModel
