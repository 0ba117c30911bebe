import ClassModel.Copies.Relabelling
import ClassModel.Proofs.Inheritance.Order
import ClassModel.Proofs.Model.Effects
import Mathlib.Logic.Relation

/-! Links and associations of originals, carried over to their copies.

Carrying over is a sequence of steps. Each of them names copies only, links only associations that
were added on the way, and changes only attributes that a copy lists.
-/

set_option autoImplicit false

namespace ClassModel

/-! ## Pairs of originals and copies -/

section

variable {Id : Type} {index : Id → Nat} {original copy : Id} {pairs : List (Id × Id)}

theorem mem_insertPair {pair : Id × Id} (member : pair ∈ insertPair index original copy pairs) :
    pair = (original, copy) ∨ pair ∈ pairs := by
  induction pairs with
  | nil => exact .inl (List.mem_singleton.mp member)
  | cons first rest ih =>
    unfold insertPair at member
    split at member
    · exact List.mem_cons.mp member
    · split at member
      · exact (List.mem_cons.mp member).imp id (List.mem_cons_of_mem _)
      · rcases List.mem_cons.mp member with rfl | later
        · exact .inr List.mem_cons_self
        · exact (ih later).imp id (List.mem_cons_of_mem _)

theorem mem_of_lookup [DecidableEq Id] {asked found : Id}
    (known : pairs.lookup asked = some found) : (asked, found) ∈ pairs := by
  obtain ⟨before, after, rfl, _⟩ := List.lookup_eq_some_iff.mp known
  simp

-- The pair is found wherever it is put, since the places before it are those of other originals.
theorem lookup_insertPair [DecidableEq Id] (injective : index.Injective) (asked : Id) :
    (insertPair index original copy pairs).lookup asked =
      if asked = original then some copy else pairs.lookup asked := by
  induction pairs with
  | nil => exact lookup_pair_cons [] original asked copy
  | cons first rest ih =>
    obtain ⟨other, otherCopy⟩ := first
    simp only [insertPair]
    split
    case isTrue => exact lookup_pair_cons _ original asked copy
    case isFalse =>
      split
      case isTrue together =>
        have same : original = other := injective together
        subst same
        by_cases same : asked = original <;> simp [lookup_pair_cons, same]
      case isFalse apart =>
        have different : other ≠ original := fun same => apart (congrArg index same.symm)
        by_cases found : asked = other
        · simp [found, different]
        · simp [lookup_pair_cons, found, ih]

-- Originals keep different copies when one of them gets a copy that is new.
theorem lookup_insertPair_injective [DecidableEq Id] (injective : index.Injective)
    (distinct : ∀ first second shared, pairs.lookup first = some shared →
      pairs.lookup second = some shared → first = second)
    (new : ∀ earlier, pairs.lookup earlier ≠ some copy) (first second shared : Id)
    (one : (insertPair index original copy pairs).lookup first = some shared)
    (other : (insertPair index original copy pairs).lookup second = some shared) :
    first = second := by
  rw [lookup_insertPair injective] at one other
  split at one <;> split at other
  · rename_i here there
    exact here.trans there.symm
  · exact absurd (one ▸ other) (new second)
  · exact absurd (other ▸ one) (new first)
  · exact distinct first second shared one other

/-- Pairs in the order of their first components, each of which occurs once. -/
def InOrder (index : Id → Nat) (pairs : List (Id × Id)) : Prop :=
  pairs.Pairwise fun earlier later => index earlier.1 < index later.1

theorem InOrder.insertPair (inOrder : InOrder index pairs) :
    InOrder index (insertPair index original copy pairs) := by
  induction pairs with
  | nil => exact List.pairwise_singleton _ _
  | cons first rest ih =>
    obtain ⟨below, restInOrder⟩ := List.pairwise_cons.mp inOrder
    unfold ClassModel.insertPair
    split
    case isTrue before =>
      refine List.pairwise_cons.mpr ⟨fun later member => ?_, inOrder⟩
      rcases List.mem_cons.mp member with rfl | member
      · exact before
      · exact Nat.lt_trans before (below later member)
    case isFalse =>
      split
      case isTrue here =>
        exact List.pairwise_cons.mpr ⟨fun later member => here ▸ below later member, restInOrder⟩
      case isFalse =>
        refine List.pairwise_cons.mpr ⟨fun later member => ?_, ih restInOrder⟩
        rcases mem_insertPair member with rfl | member
        · show index first.1 < index original
          omega
        · exact below later member

theorem InOrder.lookup [DecidableEq Id] (inOrder : InOrder index pairs)
    (member : (original, copy) ∈ pairs) : pairs.lookup original = some copy := by
  induction pairs with
  | nil => cases member
  | cons first rest ih =>
    obtain ⟨below, restInOrder⟩ := List.pairwise_cons.mp inOrder
    obtain ⟨other, otherCopy⟩ := first
    rw [lookup_pair_cons]
    rcases List.mem_cons.mp member with same | later
    · cases same
      exact if_pos rfl
    · have other : original ≠ other := by
        rintro rfl
        exact Nat.lt_irrefl _ (below (original, copy) later)
      rw [if_neg other, ih restInOrder later]

end

namespace EntityCopies

theorem mem_of_copyOf? {copies : EntityCopies} {original copy : EntityId}
    (found : copies.copyOf? original = some copy) : (original, copy) ∈ copies := mem_of_lookup found

theorem copyOf?_of_mem_originals {copies : EntityCopies} {original : EntityId}
    (copied : original ∈ copies.originals) : ∃ copy, copies.copyOf? original = some copy := by
  obtain ⟨pair, among, rfl⟩ := List.mem_map.mp copied
  exact Option.isSome_iff_exists.mp (List.lookup_isSome_iff.mpr ⟨pair, among, by simp⟩)

theorem copyOf?_insert (copies : EntityCopies) (original copy asked : EntityId) :
    (copies.insert original copy).copyOf? asked =
      if asked = original then some copy else copies.copyOf? asked :=
  lookup_insertPair (fun _ _ same => congrArg EntityId.mk same) asked

theorem exists_copyOf?_insert {copies : EntityCopies} {done : List EntityId}
    (copied : ∀ id ∈ done, ∃ copy, copies.copyOf? id = some copy) (original copy : EntityId) :
    ∀ id ∈ done ++ [original], ∃ found, (copies.insert original copy).copyOf? id = some found := by
  intro id member
  rw [copyOf?_insert]
  by_cases last : id = original
  · exact ⟨copy, if_pos last⟩
  · rw [if_neg last]
    exact copied id ((List.mem_append.mp member).resolve_right (by simpa using last))

/-- Whether an entity is one of the copies. -/
def HasCopy (copies : EntityCopies) (copy : EntityId) : Prop := ∃ pair ∈ copies, pair.2 = copy

theorem hasCopy_of_copyOf? {copies : EntityCopies} {original copy : EntityId}
    (found : copies.copyOf? original = some copy) : copies.HasCopy copy :=
  ⟨_, mem_of_copyOf? found, rfl⟩

theorem hasCopy_retarget {copies : EntityCopies} {original : EntityId}
    (copied : original ∈ copies.originals) : copies.HasCopy (copies.retarget original) := by
  obtain ⟨copy, found⟩ := copyOf?_of_mem_originals copied
  have same : copies.retarget original = copy := by simp [retarget, found]
  exact same ▸ hasCopy_of_copyOf? found

end EntityCopies

namespace Model

/-! ## Generalization -/

/-- One step of carrying over generalization links. -/
inductive CarriesLink (copies : EntityCopies) (model : Model) : Model → Prop where
  | superclass {child parent : EntityId} (childCopied : copies.HasCopy child)
      (parentCopied : copies.HasCopy parent) :
      CarriesLink copies model (model.setSuperclass child (some parent))
  | parent {child parent : EntityId} (childCopied : copies.HasCopy child)
      (parentCopied : copies.HasCopy parent) : CarriesLink copies model (model.addParent child parent)

abbrev CarriesLinks (copies : EntityCopies) : Model → Model → Prop :=
  Relation.ReflTransGen (CarriesLink copies)

theorem carriesLinks_copyParents (copies : EntityCopies) (model : Model) {original : EntityId}
    (copied : original ∈ copies.originals) :
    CarriesLinks copies model (copyParents copies model original).value := by
  have copy := EntityCopies.hasCopy_retarget copied
  have additional : ∀ start : Model, CarriesLinks copies model start →
      CarriesLinks copies model (((model.entityAt original).parents.filterMap copies.copyOf?).foldl
        (addParent · (copies.retarget original)) start) := by
    intro start carried
    refine List.foldlRecOn (motive := CarriesLinks copies model) _ _ carried ?_
    intro state carried parent member
    obtain ⟨id, _, found⟩ := List.mem_filterMap.mp member
    exact carried.tail (.parent copy (EntityCopies.hasCopy_of_copyOf? found))
  unfold copyParents
  rw [Noted.value_map]
  apply additional
  split
  · exact .refl
  · split
    · rename_i parentCopy found
      exact .single (.superclass copy (EntityCopies.hasCopy_of_copyOf? found))
    · exact .refl

theorem carriesLinks_copyInheritances (model : Model) (copies : EntityCopies) :
    CarriesLinks copies model (model.copyInheritances copies).value := by
  show CarriesLinks copies model (List.foldlM (copyParents copies) model
    (model.superclassFirstOrder copies.originals)).value
  rw [Noted.value_foldlM]
  refine List.foldlRecOn (motive := CarriesLinks copies model) _ _ .refl ?_
  intro state carried original member
  exact carried.trans
    (carriesLinks_copyParents copies state (model.mem_superclassFirstOrder.mp member))

theorem CarriesLinks.sameButLinks {copies : EntityCopies} {before after : Model}
    (carried : CarriesLinks copies before after) : SameButLinks before after := by
  induction carried with
  | refl => exact .refl before
  | tail _ step ih =>
    cases step with
    | superclass => exact ih.trans (sameButLinks_setSuperclass _ _ _)
    | parent => exact ih.trans (sameButLinks_addParent _ _ _)

/-! ## Associations -/

/-- One step of carrying over associations, in a model that had fewer of them at the start. -/
inductive CarriesAssociation (copies : EntityCopies) (start model : Model) : Model → Prop where
  | add {added : Association} (near : copies.HasCopy added.entity1)
      (far : copies.HasCopy added.entity2) :
      CarriesAssociation copies start model (model.addAssociation added)
  | link {first second : AssociationId} (firstThere : model.HasAssociation first)
      (firstNew : ¬ start.HasAssociation first) (secondThere : model.HasAssociation second)
      (secondNew : ¬ start.HasAssociation second) :
      CarriesAssociation copies start model (model.linkInverse first second)
  | retarget {copy : EntityId} {id : AttributeId} (copied : copies.HasCopy copy)
      (listed : id ∈ (model.entityAt copy).attributes) (change : Attribute → Attribute) :
      CarriesAssociation copies start model (model.modifyAttribute id change)

abbrev CarriesAssociations (copies : EntityCopies) (start : Model) : Model → Model → Prop :=
  Relation.ReflTransGen (CarriesAssociation copies start)

theorem CarriesAssociations.noLarger {copies : EntityCopies} {start before after : Model}
    (carried : CarriesAssociations copies start before after) : NoLarger before after := by
  induction carried with
  | refl => exact .refl before
  | tail _ step ih =>
    cases step with
    | add => exact ih.trans (noLarger_addAssociation _ _)
    | link => exact ih.trans (noLarger_linkInverse _ _ _)
    | retarget => exact ih.trans ⟨Nat.le_refl _, Nat.le_refl _⟩

/-- The copying of associations so far: the associations it added are there, and are new. -/
structure CopyingFrom (copies : EntityCopies) (start : Model) (state : AssociationCopying) :
    Prop where
  carried : CarriesAssociations copies start start state.model
  added : ∀ pair ∈ state.copied,
    state.model.HasAssociation pair.2 ∧ ¬ start.HasAssociation pair.2

section

variable {copies : EntityCopies} {start : Model}

theorem CopyingFrom.copyAssociation {state : AssociationCopying}
    (copying : CopyingFrom copies start state) {original : EntityId}
    (near : copies.HasCopy (copies.retarget original)) (role : AssociationId) :
    CopyingFrom copies start (Model.copyAssociation copies original state role).value := by
  unfold Model.copyAssociation
  dsimp only
  split
  · exact copying
  · rename_i farCopy found
    let added := { state.model.associationAt role with
      entity1 := copies.retarget original, entity2 := farCopy, inverse := none }
    have step : CarriesAssociation copies start state.model (state.model.addAssociation added) :=
      .add near (EntityCopies.hasCopy_of_copyOf? found)
    refine ⟨copying.carried.tail step, fun pair member => ?_⟩
    rcases mem_insertPair member with rfl | earlier
    · exact ⟨by simp [HasAssociation, nextAssociation, addAssociation, modifyEntity],
        Nat.not_lt_of_le copying.carried.noLarger.associations⟩
    · obtain ⟨there, new⟩ := copying.added pair earlier
      exact ⟨Nat.lt_of_lt_of_le there (state.model.noLarger_addAssociation added).associations, new⟩

theorem copyingFrom_copyAssociationsOf (order : List EntityId)
    (copied : ∀ original ∈ order, original ∈ copies.originals) :
    CopyingFrom copies start
      (order.foldlM (copyAssociationsOf copies) ⟨start, []⟩ : Noted AssociationCopying).value := by
  rw [Noted.value_foldlM]
  refine List.foldlRecOn (motive := CopyingFrom copies start) _ _ ⟨.refl, by simp⟩ ?_
  intro state copying original member
  unfold copyAssociationsOf
  rw [Noted.value_foldlM]
  have near := EntityCopies.hasCopy_retarget (copied original member)
  exact List.foldlRecOn (motive := CopyingFrom copies start) _ _ copying
    fun state copying role _ => copying.copyAssociation near role

-- Linking adds no association, so the copies are there for the links still to come.
theorem carriesAssociations_linkCopiedInverse {state : AssociationCopying}
    (copying : CopyingFrom copies start state) :
    CarriesAssociations copies start start
      (state.copied.foldl (linkCopiedInverse state.copied) state.model) := by
  refine (List.foldlRecOn (motive := fun linked : Model =>
    CarriesAssociations copies start start linked ∧ NoLarger state.model linked) _ _
    ⟨copying.carried, .refl _⟩ ?_).1
  intro linked ⟨carried, grown⟩ pair member
  have there : ∀ pair ∈ state.copied, linked.HasAssociation pair.2 := fun pair member =>
    Nat.lt_of_lt_of_le (copying.added pair member).1 grown.associations
  unfold linkCopiedInverse
  split
  · rename_i inverseCopy found
    obtain ⟨inverse, _, looked⟩ := Option.bind_eq_some_iff.mp found
    have listed : (inverse, inverseCopy) ∈ state.copied := mem_of_lookup looked
    exact ⟨carried.tail (.link (there _ member) (copying.added _ member).2 (there _ listed)
        (copying.added _ listed).2), grown.trans (linked.noLarger_linkInverse _ _)⟩
  · exact ⟨carried, grown⟩

-- Retargeting changes no list, so what is still to be retargeted stays listed.
theorem carriesAssociations_retargetAttributes (model : Model) {copy : EntityId}
    (copied : copies.HasCopy copy) :
    CarriesAssociations copies start model (retargetAttributes copies model copy) := by
  refine (List.foldlRecOn (motive := fun state : Model =>
    CarriesAssociations copies start model state ∧ state.entities = model.entities) _ _
    ⟨.refl, rfl⟩ ?_).1
  intro state ⟨carried, same⟩ id member
  have listed : id ∈ (state.entityAt copy).attributes := by
    simpa [entityAt, same] using member
  exact ⟨carried.tail (.retarget copied listed _), same⟩

theorem carriesAssociations_copyToTarget (model : Model) (copies : EntityCopies) :
    CarriesAssociations copies model model (model.copyToTarget copies).value.1 := by
  let state := ((model.superclassFirstOrder copies.originals).foldlM (copyAssociationsOf copies)
    ({ model } : AssociationCopying)).value
  have copying : CopyingFrom copies model state := copyingFrom_copyAssociationsOf _
    fun _ member => model.mem_superclassFirstOrder.mp member
  have linked := carriesAssociations_linkCopiedInverse copying
  show CarriesAssociations copies model model (List.foldl (retargetAttributes copies) _ _)
  refine List.foldlRecOn (motive := CarriesAssociations copies model model) _ _ linked ?_
  intro retargeted carried copy member
  obtain ⟨pair, among, rfl⟩ := List.mem_map.mp member
  exact carried.trans (carriesAssociations_retargetAttributes retargeted ⟨pair, among, rfl⟩)

end

/-! ## Labels -/

/-- Two models with as many entities, of the same names and the same originals. -/
structure SameLabels (before after : Model) : Prop where
  count : after.entityCount = before.entityCount
  name : ∀ id, after.name id = before.name id
  copyOf : ∀ id, (after.entityAt id).copyOf = (before.entityAt id).copyOf

theorem SameLabels.refl (model : Model) : SameLabels model model := ⟨rfl, fun _ => rfl, fun _ => rfl⟩

theorem SameLabels.trans {first second third : Model} (earlier : SameLabels first second)
    (later : SameLabels second third) : SameLabels first third where
  count := later.count.trans earlier.count
  name id := (later.name id).trans (earlier.name id)
  copyOf id := (later.copyOf id).trans (earlier.copyOf id)

theorem SameLabels.of_entities {before after : Model} (same : after.entities = before.entities) :
    SameLabels before after where
  count := congrArg Array.size same
  name id := by simp only [Model.name, entityAt, same]
  copyOf id := by simp only [entityAt, same]

theorem SameButLinks.sameLabels {before after : Model} (same : SameButLinks before after) :
    SameLabels before after where
  count := same.count
  name id := (congrArg Entity.name (same.entities id) :)
  copyOf id := (congrArg Entity.copyOf (same.entities id) :)

theorem sameLabels_addAssociation (model : Model) (added : Association) :
    SameLabels model (model.addAssociation added) where
  count := entityCount_modifyEntity _ _ _
  name id := part_modifyEntity Entity.name _ _ id _ fun _ => rfl
  copyOf id := part_modifyEntity Entity.copyOf _ _ id _ fun _ => rfl

theorem CarriesAssociations.sameLabels {copies : EntityCopies} {start before after : Model}
    (carried : CarriesAssociations copies start before after) : SameLabels before after := by
  induction carried with
  | refl => exact .refl before
  | tail _ step ih =>
    cases step with
    | add => exact ih.trans (sameLabels_addAssociation _ _)
    | link => exact ih.trans (.of_entities (entities_linkInverse _ _ _))
    | retarget => exact ih.trans (.of_entities rfl)

end Model

end ClassModel
