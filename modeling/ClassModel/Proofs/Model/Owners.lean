import ClassModel.Proofs.Model.FeatureLists
import ClassModel.Proofs.Model.Growth

/-! Whose the numbers of a reachable model are.

A feature is listed by the entity that declares it, and a name belongs to the first entity that got it.
What a number stands for may be changed, but not whose it is.
-/

set_option autoImplicit false

namespace ClassModel.Model

/-! ## Features that are there -/

/-- The features of the first model are features of the same entities in the second. -/
structure KeepsOwners (before after : Model) : Prop where
  associations : ∀ id, before.HasAssociation id →
    (after.associationAt id).entity1 = (before.associationAt id).entity1
  operations : Keeps before.operations after.operations
  invariants : Keeps before.invariants after.invariants

namespace KeepsOwners

variable {before after : Model}

theorem of_associations (same : Keeps before.associations after.associations)
    (operations : Keeps before.operations after.operations)
    (invariants : Keeps before.invariants after.invariants) : KeepsOwners before after where
  associations _ there := congrArg Association.entity1 (same.getD_eq there default)
  operations := operations
  invariants := invariants

theorem of_near (near : ∀ id, (after.associationAt id).entity1 = (before.associationAt id).entity1)
    (operations : after.operations = before.operations)
    (invariants : after.invariants = before.invariants) : KeepsOwners before after where
  associations id _ := near id
  operations := operations ▸ .refl _
  invariants := invariants ▸ .refl _

theorem of_sameButLinks (same : SameButLinks before after) : KeepsOwners before after :=
  of_associations (same.associations ▸ .refl _) (same.operations ▸ .refl _)
    (same.invariants ▸ .refl _)

theorem belongsTo (kept : KeepsOwners before after) {id : EntityId} {kind : FeatureKind}
    {index : Nat} (there : index < before.featureCount kind)
    (belongs : before.BelongsTo id kind index) : after.BelongsTo id kind index := by
  cases kind with
  | attributes => trivial
  | associations => exact (kept.associations ⟨index⟩ there).trans belongs
  | operations => exact (congrArg Operation.owner (kept.operations.getD_eq there _)).trans belongs
  | invariants => exact (congrArg Invariant.owner (kept.invariants.getD_eq there _)).trans belongs

theorem of_edit (model : Model) (edit : Edit) : KeepsOwners model (edit.apply model) := by
  cases edit with
  | addAssociation added => exact .of_associations ((Keeps.refl _).push added) (.refl _) (.refl _)
  | addOperation added => exact .of_associations (.refl _) ((Keeps.refl _).push added) (.refl _)
  | addInvariant added => exact .of_associations (.refl _) (.refl _) ((Keeps.refl _).push added)
  | linkInverse first second =>
    refine .of_near (fun id => ?_) (model.operations_linkInverse first second)
      (model.invariants_linkInverse first second)
    exact part_linkInverse Association.entity1 model first second id fun _ _ _ => rfl
  | setSuperclass child parent =>
    exact .of_sameButLinks (model.sameButLinks_setSuperclass child parent)
  | addParent child parent => exact .of_sameButLinks (model.sameButLinks_addParent child parent)
  | removeGeneralization parent child =>
    exact .of_sameButLinks (model.sameButLinks_removeGeneralization parent child)
  | _ => exact .of_associations (.refl _) (.refl _) (.refl _)

end KeepsOwners

theorem Changes.keepsOwners {model next : Model} (changes : Changes model next) :
    KeepsOwners model next := by
  cases changes with
  | edit edit => exact .of_edit model edit
  | changeAssociation id change kept =>
    refine .of_near (fun asked => ?_) rfl rfl
    exact part_modifyAssociation Association.entity1 model id asked change fun association =>
      (congrArg Association.entity1 (kept association) :)
  | _ => exact .of_associations (.refl _) (.refl _) (.refl _)

/-! ## Lists of their owners -/

/-- Every feature is listed by the entity that declares it. -/
def ListsOwn (model : Model) : Prop :=
  ∀ kind id, ∀ index ∈ model.listed kind id, model.BelongsTo id kind index

-- What was listed before keeps its owner, and what is new comes into the list of its owner.
theorem ListsOwn.step {model next : Model} (own : ListsOwn model) (sound : ListsApart model)
    (changes : Changes model next) : ListsOwn next := by
  intro kind id index listed
  have before : index ∈ model.listed kind id → next.BelongsTo id kind index := fun earlier =>
    changes.keepsOwners.belongsTo (sound.inRange kind id index earlier) (own kind id index earlier)
  cases changes.listsChange kind with
  | fewer _ lists => exact before ((lists id).subset listed)
  | more owner _ belongs others place =>
    rcases listed_before_or_new others place listed with earlier | ⟨rfl, rfl⟩
    · exact before earlier
    · exact belongs

theorem listsOwn_empty : ListsOwn .empty := by
  intro kind id index listed
  cases kind <;> cases listed

theorem Reachable.listsOwn {model : Model} (reachable : model.Reachable) : ListsOwn model :=
  reachable.holds_along listsOwn_empty fun before changes own => own.step before.listsApart changes

/-! ## Reachable models -/

/-- All numbers of a model are in order. Lists name what is there, once and in one place, and what an
entity lists is its own. Under a name is found who has it first, from the time when that one is added. -/
structure NumbersSound (model : Model) : Prop extends ListsApart model where
  associations : ∀ id, ∀ role ∈ (model.entityAt id).associations,
    (model.associationAt role).entity1 = id
  operations : ∀ id, ∀ operation ∈ (model.entityAt id).operations,
    (model.operationAt operation).owner = id
  invariants : ∀ id, ∀ rule ∈ (model.entityAt id).invariants, (model.invariantAt rule).owner = id
  named : ∀ asked id, model.entityNamed? asked = some id ↔ model.HasEntity id ∧
    model.name id = asked ∧ ∀ earlier : EntityId, earlier.index < id.index →
      model.name earlier ≠ asked
  unnamed : ∀ asked, model.entityNamed? asked = none ↔
    ∀ id, model.HasEntity id → model.name id ≠ asked
  since : ∀ earlier, Leads earlier model → ∀ asked id, earlier.entityNamed? asked = some id →
    model.entityNamed? asked = some id

/-- The numbers of every reachable model are in order. -/
theorem Reachable.numbersSound {model : Model} (reachable : model.Reachable) :
    model.NumbersSound where
  toListsApart := reachable.listsApart
  associations id _ listed := reachable.listsOwn .associations id _ (List.mem_map_of_mem listed)
  operations id _ listed := reachable.listsOwn .operations id _ (List.mem_map_of_mem listed)
  invariants id _ listed := reachable.listsOwn .invariants id _ (List.mem_map_of_mem listed)
  named asked id := by
    rw [reachable.namesIndexed asked]
    exact model.firstNamed?_eq_some_iff asked id
  unnamed asked := by
    rw [reachable.namesIndexed asked]
    exact model.firstNamed?_eq_none_iff asked
  since _ leads _ _ := leads.entityNamed?_eq_some

/-- Two clubs of one name. The first has a member list and has declared twice how to join. -/
def clubs : Model :=
  [Edit.insertEntity (.named "Club"), .insertEntity (.named "Person"),
    .insertEntity (.named "Club"),
    .attachAttribute ⟨0⟩ { name := "title", type := .primitive "string", owner := ⟨0⟩ },
    .attachAttribute ⟨1⟩ { name := "title", type := .primitive "string", owner := ⟨0⟩ },
    .addAssociation { entity1 := ⟨0⟩, entity2 := ⟨1⟩, role2 := "members", card2 := .many },
    .addAssociation { entity1 := ⟨1⟩, entity2 := ⟨0⟩, role2 := "club" }, .linkInverse ⟨0⟩ ⟨1⟩,
    .addOperation { name := "join", owner := ⟨0⟩ }, .addOperation { name := "join", owner := ⟨1⟩ },
    .addOperation { name := "join", owner := ⟨0⟩, flags := { query := true } },
    .addInvariant { antecedent := "title", consequent := "members", owner := ⟨0⟩,
                    isLocal := true },
    .removeAttribute ⟨1⟩ ⟨1⟩].foldl Edit.apply .empty

/-- A copy of the first club lists a title of its own. The club itself is what is found under the name
that three entities have by now, and it lists the second declaration of how to join. -/
theorem numbersSound_clubs :
    (clubs.targetCopy ⟨0⟩).Reachable ∧ (clubs.targetCopy ⟨0⟩).name ⟨3⟩ = "Club" ∧
      (clubs.targetCopy ⟨0⟩).listed .attributes ⟨3⟩ = [2] ∧
      2 ∉ (clubs.targetCopy ⟨0⟩).listed .attributes ⟨0⟩ ∧
      (clubs.targetCopy ⟨0⟩).listed .operations ⟨0⟩ = [2] ∧
      ((clubs.targetCopy ⟨0⟩).operationAt ⟨2⟩).owner = ⟨0⟩ ∧
      (clubs.targetCopy ⟨0⟩).entityNamed? "Club" = some ⟨0⟩ ∧
      (clubs.targetCopy ⟨0⟩).entityNamed? "Person" = some ⟨1⟩ := by
  have reachable : clubs.Reachable := Reachable.empty.of_leads (EditsFit.leads (by decide))
  have copied : (clubs.targetCopy ⟨0⟩).Reachable := reachable.targetCopy ⟨0⟩
  have sound := copied.numbersSound
  have title : (clubs.targetCopy ⟨0⟩).listed .attributes ⟨3⟩ = [2] := by decide
  refine ⟨copied, by decide, title, fun shared => ?_, by decide,
    sound.operations ⟨0⟩ ⟨2⟩ (by decide),
    sound.since clubs ?_ "Club" ⟨0⟩ (by decide +kernel),
    (sound.named "Person" ⟨1⟩).mpr ⟨by decide, by decide, fun earlier before => ?_⟩⟩
  · have same := sound.apart .attributes ⟨0⟩ ⟨3⟩ 2 shared (title ▸ List.mem_singleton_self 2)
    cases same
  · exact copies_targetCopy.leads clubs ⟨0⟩
  · obtain rfl : earlier = ⟨0⟩ := congrArg EntityId.mk (Nat.lt_one_iff.mp before)
    decide

end ClassModel.Model
