import ClassModel.Proofs.Copies.Apart
import ClassModel.Proofs.Model.Reachable

/-! What elements refer to, and models whose new elements refer to new ones.

An edit that refers to new elements only changes new elements only. So all that was there stays as it
was, and nothing new leads back to it.
-/

set_option autoImplicit false

namespace ClassModel

/-! ## References -/

/-- The entity that a type refers to, inside any number of collections. -/
def TypeExpr.leaf? : TypeExpr → Option EntityId
  | .primitive _ => none
  | .entity id => some id
  | .collection _ element => element.leaf?

/-- Some elements of each kind. -/
structure Elements where
  entities : EntityId → Prop
  attributes : AttributeId → Prop
  associations : AssociationId → Prop
  operations : OperationId → Prop
  invariants : InvariantId → Prop

/-- The first elements are among the second ones. -/
structure Elements.Among (fewer more : Elements) : Prop where
  entities : ∀ {id}, fewer.entities id → more.entities id
  attributes : ∀ {id}, fewer.attributes id → more.attributes id
  associations : ∀ {id}, fewer.associations id → more.associations id
  operations : ∀ {id}, fewer.operations id → more.operations id
  invariants : ∀ {id}, fewer.invariants id → more.invariants id

theorem Elements.Among.refl (elements : Elements) : elements.Among elements := ⟨id, id, id, id, id⟩

theorem Elements.Among.trans {fewer some more : Elements} (first : fewer.Among some)
    (second : some.Among more) : fewer.Among more :=
  ⟨fun among => second.entities (first.entities among),
    fun among => second.attributes (first.attributes among),
    fun among => second.associations (first.associations among),
    fun among => second.operations (first.operations among),
    fun among => second.invariants (first.invariants among)⟩

/-- All that an entity is linked to, lists or stands for is among these elements. -/
structure Entity.RefersTo (elements : Elements) (entity : Entity) : Prop where
  parents : ∀ id ∈ entity.allParents, elements.entities id
  children : ∀ id ∈ entity.children, elements.entities id
  attributes : ∀ id ∈ entity.attributes, elements.attributes id
  associations : ∀ id ∈ entity.associations, elements.associations id
  operations : ∀ id ∈ entity.operations, elements.operations id
  invariants : ∀ id ∈ entity.invariants, elements.invariants id
  linkedAssociation : ∀ id ∈ entity.linkedAssociation, elements.associations id
  copyOf : ∀ id ∈ entity.copyOf, elements.entities id

/-- The attribute belongs to one of these entities, its type refers to no others, and it stands for
itself. -/
structure Attribute.RefersTo (elements : Elements) (declared : Attribute) : Prop where
  owner : elements.entities declared.owner
  type : ∀ id ∈ declared.type.leaf?, elements.entities id
  path : declared.path = none

structure Association.RefersTo (elements : Elements) (association : Association) : Prop where
  near : elements.entities association.entity1
  far : elements.entities association.entity2
  inverse : ∀ id ∈ association.inverse, elements.associations id

structure Operation.RefersTo (elements : Elements) (operation : Operation) : Prop where
  owner : elements.entities operation.owner
  params : ∀ param ∈ operation.params, ∀ id ∈ param.type.leaf?, elements.entities id
  result : ∀ type ∈ operation.result, ∀ id ∈ type.leaf?, elements.entities id

def Invariant.RefersTo (elements : Elements) (rule : Invariant) : Prop :=
  elements.entities rule.owner

section

variable {fewer more : Elements} (among : fewer.Among more)

include among

theorem Entity.RefersTo.mono {entity : Entity} (refers : entity.RefersTo fewer) :
    entity.RefersTo more where
  parents id member := among.entities (refers.parents id member)
  children id member := among.entities (refers.children id member)
  attributes id member := among.attributes (refers.attributes id member)
  associations id member := among.associations (refers.associations id member)
  operations id member := among.operations (refers.operations id member)
  invariants id member := among.invariants (refers.invariants id member)
  linkedAssociation id member := among.associations (refers.linkedAssociation id member)
  copyOf id member := among.entities (refers.copyOf id member)

theorem Attribute.RefersTo.mono {declared : Attribute} (refers : declared.RefersTo fewer) :
    declared.RefersTo more where
  owner := among.entities refers.owner
  type id member := among.entities (refers.type id member)
  path := refers.path

theorem Association.RefersTo.mono {association : Association}
    (refers : association.RefersTo fewer) : association.RefersTo more where
  near := among.entities refers.near
  far := among.entities refers.far
  inverse id member := among.associations (refers.inverse id member)

theorem Operation.RefersTo.mono {operation : Operation} (refers : operation.RefersTo fewer) :
    operation.RefersTo more where
  owner := among.entities refers.owner
  params param listed id member := among.entities (refers.params param listed id member)
  result type given id member := among.entities (refers.result type given id member)

end

-- An entity in which nothing is listed refers to nothing, unless it stands for something.
theorem Entity.IsBare.refersTo {entity : Entity} (bare : entity.IsBare)
    (unlinked : entity.linkedAssociation = none) (original : entity.copyOf = none)
    (elements : Elements) : entity.RefersTo elements := by
  constructor <;> simp [Entity.allParents, bare.superclass, bare.parents, bare.children,
    bare.attributes, bare.associations, bare.operations, bare.invariants, unlinked, original]

/-- Whether an edit only adds or links, and refers to these elements only. -/
def Edit.BuildsOn (elements : Elements) : Edit → Prop
  | .insertEntity entity => entity.IsBare ∧ entity.RefersTo elements
  | .attachAttribute entity added => elements.entities entity ∧ added.RefersTo elements
  | .addAssociation added => added.RefersTo elements
  | .linkInverse first second => elements.associations first ∧ elements.associations second
  | .addOperation added => added.RefersTo elements
  | .addInvariant added => added.RefersTo elements
  | .setSuperclass child parent =>
    elements.entities child ∧ ∃ named, parent = some named ∧ elements.entities named
  | .addParent child parent => elements.entities child ∧ elements.entities parent
  | .removeAttribute _ _ | .removeAssociation _ _ | .removeGeneralization _ _ => False

theorem Edit.BuildsOn.mono {fewer more : Elements} (among : fewer.Among more) {edit : Edit}
    (builds : edit.BuildsOn fewer) : edit.BuildsOn more := by
  cases edit with
  | insertEntity entity => exact ⟨builds.1, builds.2.mono among⟩
  | attachAttribute entity added => exact ⟨among.entities builds.1, builds.2.mono among⟩
  | addAssociation added => exact Association.RefersTo.mono among builds
  | linkInverse first second =>
    exact ⟨among.associations builds.1, among.associations builds.2⟩
  | addOperation added => exact Operation.RefersTo.mono among builds
  | addInvariant added => exact among.entities builds
  | setSuperclass child parent =>
    obtain ⟨childAmong, named, same, parentAmong⟩ := builds
    exact ⟨among.entities childAmong, named, same, among.entities parentAmong⟩
  | addParent child parent => exact ⟨among.entities builds.1, among.entities builds.2⟩
  | removeAttribute | removeAssociation | removeGeneralization => exact builds

/-! ## New elements of an array -/

/-- Everything from a place on satisfies a condition. -/
def AllFrom {α : Type} (start : Nat) (elements : Array α) (Holds : α → Prop) : Prop :=
  ∀ index, start ≤ index → ∀ element, elements[index]? = some element → Holds element

namespace AllFrom

variable {α : Type} {start : Nat} {elements : Array α} {Holds : α → Prop}

theorem nothing (elements : Array α) (Holds : α → Prop) : AllFrom elements.size elements Holds := by
  intro index beyond element found
  rw [Array.getElem?_eq_none beyond] at found
  cases found

theorem mono (all : AllFrom start elements Holds) {Weaker : α → Prop}
    (weaker : ∀ {element}, Holds element → Weaker element) : AllFrom start elements Weaker :=
  fun index new element found => weaker (all index new element found)

theorem push (all : AllFrom start elements Holds) {added : α} (holds : Holds added) :
    AllFrom start (elements.push added) Holds := by
  intro index new element found
  rw [Array.getElem?_push] at found
  split at found
  · cases found
    exact holds
  · exact all index new element found

theorem modify (all : AllFrom start elements Holds) (place : Nat) {change : α → α}
    (kept : ∀ element, Holds element → Holds (change element)) :
    AllFrom start (elements.modify place change) Holds := by
  intro index new element found
  rw [Array.getElem?_modify] at found
  split at found
  · obtain ⟨before, there, rfl⟩ := Option.map_eq_some_iff.mp found
    exact kept before (all index new before there)
  · exact all index new element found

end AllFrom

/-! ## New elements of a model -/

namespace Model

/-- The elements that the second model has beyond the first. -/
def added (before after : Model) : Elements where
  entities id := before.entities.size ≤ id.index ∧ id.index < after.entities.size
  attributes id := before.attributes.size ≤ id.index ∧ id.index < after.attributes.size
  associations id := before.associations.size ≤ id.index ∧ id.index < after.associations.size
  operations id := before.operations.size ≤ id.index ∧ id.index < after.operations.size
  invariants id := before.invariants.size ≤ id.index ∧ id.index < after.invariants.size

/-- What the second model has beyond the first refers to these elements only. -/
structure AdditionsReferTo (elements : Elements) (before after : Model) : Prop where
  entities : AllFrom before.entities.size after.entities (Entity.RefersTo elements)
  attributes : AllFrom before.attributes.size after.attributes (Attribute.RefersTo elements)
  associations : AllFrom before.associations.size after.associations (Association.RefersTo elements)
  operations : AllFrom before.operations.size after.operations (Operation.RefersTo elements)
  invariants : AllFrom before.invariants.size after.invariants (Invariant.RefersTo elements)

namespace AdditionsReferTo

variable {elements : Elements} {before after : Model}

theorem mono (refer : AdditionsReferTo elements before after) {more : Elements}
    (among : elements.Among more) : AdditionsReferTo more before after where
  entities := refer.entities.mono fun refers => refers.mono among
  attributes := refer.attributes.mono fun refers => refers.mono among
  associations := refer.associations.mono fun refers => refers.mono among
  operations := refer.operations.mono fun refers => refers.mono among
  invariants := refer.invariants.mono fun refers => among.entities refers

-- A number without an entity reads as a blank one, which refers to nothing.
theorem entityAt (refer : AdditionsReferTo elements before after) {id : EntityId}
    (new : ¬ before.HasEntity id) : (after.entityAt id).RefersTo elements := by
  by_cases there : after.HasEntity id
  · refine refer.entities id.index (Nat.le_of_not_lt new) _ ?_
    rw [after.entityAt_eq_getElem id there]
    exact Array.getElem?_eq_getElem there
  · rw [entityAt_of_not_hasEntity _ _ there]
    exact Entity.IsBare.refersTo (by decide) rfl rfl elements

/-! ### Edits -/

section

variable (refer : AdditionsReferTo elements before after)

include refer

theorem modifyEntity (id : EntityId) (change : Entity → Entity)
    (kept : ∀ entity, entity.RefersTo elements → (change entity).RefersTo elements) :
    AdditionsReferTo elements before (after.modifyEntity id change) :=
  { refer with entities := refer.entities.modify id.index kept }

theorem modifyAssociation (id : AssociationId) (change : Association → Association)
    (kept : ∀ association, association.RefersTo elements → (change association).RefersTo elements) :
    AdditionsReferTo elements before (after.modifyAssociation id change) :=
  { refer with associations := refer.associations.modify id.index kept }

theorem insertEntity {entity : Entity} (refers : entity.RefersTo elements) :
    AdditionsReferTo elements before (after.insertEntity entity) :=
  { refer with entities := refer.entities.push refers }

theorem attachAttribute (entity : EntityId) {added : Attribute} (refers : added.RefersTo elements)
    (new : elements.attributes after.nextAttribute) :
    AdditionsReferTo elements before (after.attachAttribute entity added) := by
  have pushed : AdditionsReferTo elements before
      { after with attributes := after.attributes.push added } :=
    { refer with attributes := refer.attributes.push refers }
  refine pushed.modifyEntity entity _ fun owner known => { known with attributes := ?_ }
  exact List.forall_mem_append.mpr ⟨known.attributes, by simpa using new⟩

theorem addAssociation {added : Association} (refers : added.RefersTo elements)
    (new : elements.associations after.nextAssociation) :
    AdditionsReferTo elements before (after.addAssociation added) := by
  have pushed : AdditionsReferTo elements before
      { after with associations := after.associations.push added } :=
    { refer with associations := refer.associations.push refers }
  refine pushed.modifyEntity added.entity1 _ fun owner known => { known with associations := ?_ }
  exact List.forall_mem_append.mpr ⟨known.associations, by simpa using new⟩

theorem addOperation {added : Operation} (refers : added.RefersTo elements)
    (new : elements.operations after.nextOperation) :
    AdditionsReferTo elements before (after.addOperation added) := by
  have pushed : AdditionsReferTo elements before
      { after with operations := after.operations.push added } :=
    { refer with operations := refer.operations.push refers }
  refine pushed.modifyEntity added.owner _ fun owner known => { known with operations := ?_ }
  cases after.redeclaredAt? added with
  | none => exact List.forall_mem_append.mpr ⟨known.operations, by simpa using new⟩
  | some place =>
    intro id member
    rcases List.mem_or_eq_of_mem_set member with listed | rfl
    · exact known.operations id listed
    · exact new

theorem addInvariant {added : Invariant} (refers : added.RefersTo elements)
    (new : elements.invariants after.nextInvariant) :
    AdditionsReferTo elements before (after.addInvariant added) := by
  have pushed : AdditionsReferTo elements before
      { after with invariants := after.invariants.push added } :=
    { refer with invariants := refer.invariants.push refers }
  refine pushed.modifyEntity added.owner _ fun owner known => { known with invariants := ?_ }
  exact List.forall_mem_append.mpr ⟨known.invariants, by simpa using new⟩

theorem linkInverse {first second : AssociationId} (firstAmong : elements.associations first)
    (secondAmong : elements.associations second) :
    AdditionsReferTo elements before (after.linkInverse first second) := by
  have inverse : ∀ {id : AssociationId}, elements.associations id → ∀ association : Association,
      association.RefersTo elements →
        ({ association with inverse := some id } : Association).RefersTo elements := by
    intro id among association known
    exact { known with inverse := by simpa using among }
  have nearRole : ∀ (role : String) (association : Association), association.RefersTo elements →
      ({ association with role1 := association.role1.or (some role) } : Association).RefersTo
        elements := fun role association known => { known with }
  exact (((refer.modifyAssociation first _ (inverse secondAmong)).modifyAssociation second _
    (inverse firstAmong)).modifyAssociation first _ (nearRole _)).modifyAssociation second _ (nearRole _)

theorem listChild (parent : EntityId) {child : EntityId} (among : elements.entities child) :
    AdditionsReferTo elements before (after.listChild parent child) := by
  refine refer.modifyEntity parent _ fun entity known => ?_
  split
  · exact known
  · exact { known with
      children := List.forall_mem_append.mpr ⟨known.children, by simpa using among⟩ }

theorem clearSuperclass (child : EntityId) :
    AdditionsReferTo elements before (after.clearSuperclass child) := by
  unfold Model.clearSuperclass
  split
  · exact refer
  · have cleared := refer.modifyEntity child ({ · with superclass := none })
      fun entity known => { known with
        parents := fun id member => known.parents id (List.mem_append_right _ member) }
    dsimp only
    split
    · exact cleared
    · exact cleared.modifyEntity _ _ fun entity known => { known with
        children := fun id member => known.children id (List.mem_filter.mp member).1 }

theorem setSuperclass (child : EntityId) {parent : EntityId} (childAmong : elements.entities child)
    (parentAmong : elements.entities parent) :
    AdditionsReferTo elements before (after.setSuperclass child (some parent)) := by
  have named := (refer.clearSuperclass child).modifyEntity child
    ({ · with superclass := some parent }) fun entity known => { known with
      parents := by
        refine List.forall_mem_append.mpr ⟨by simpa using parentAmong, fun id member => ?_⟩
        exact known.parents id (List.mem_append_right _ member) }
  exact named.listChild parent childAmong

theorem addParent (child : EntityId) {parent : EntityId} (childAmong : elements.entities child)
    (parentAmong : elements.entities parent) :
    AdditionsReferTo elements before (after.addParent child parent) := by
  unfold Model.addParent
  split
  · exact refer
  · have named := refer.modifyEntity child
      (fun entity => { entity with parents := entity.parents ++ [parent] })
      fun entity known => { known with
        parents := by
          intro id member
          rw [Entity.allParents, ← List.append_assoc] at member
          rcases List.mem_append.mp member with before | new
          · exact known.parents id before
          · exact List.mem_singleton.mp new ▸ parentAmong }
    exact named.listChild parent childAmong

end

end AdditionsReferTo

end Model

/-! ## Models with separate additions -/

section

variable (before : Model) {after next : Model}

theorem Model.added_among (entities : after.entities.size ≤ next.entities.size)
    (attributes : after.attributes.size ≤ next.attributes.size)
    (associations : after.associations.size ≤ next.associations.size)
    (operations : after.operations.size ≤ next.operations.size)
    (invariants : after.invariants.size ≤ next.invariants.size) :
    (before.added after).Among (before.added next) :=
  ⟨fun new => ⟨new.1, Nat.lt_of_lt_of_le new.2 entities⟩,
    fun new => ⟨new.1, Nat.lt_of_lt_of_le new.2 attributes⟩,
    fun new => ⟨new.1, Nat.lt_of_lt_of_le new.2 associations⟩,
    fun new => ⟨new.1, Nat.lt_of_lt_of_le new.2 operations⟩,
    fun new => ⟨new.1, Nat.lt_of_lt_of_le new.2 invariants⟩⟩

theorem Model.SameButLinks.added_among (same : Model.SameButLinks after next) :
    (before.added after).Among (before.added next) :=
  before.added_among (Nat.le_of_eq same.count.symm) (by simp [same.attributes])
    (by simp [same.associations]) (by simp [same.operations]) (by simp [same.invariants])

-- What an edit adds to or links is there when it is new.
theorem Edit.BuildsOn.fits {before : Model} {edit : Edit}
    (builds : edit.BuildsOn (before.added after)) : edit.Fits after := by
  cases edit with
  | insertEntity entity => exact builds.1
  | attachAttribute entity added => exact builds.1.2
  | addAssociation added => exact builds.near.2
  | linkInverse first second => exact ⟨builds.1.2, builds.2.2⟩
  | addOperation added => exact builds.owner.2
  | addInvariant added => exact builds.2
  | setSuperclass child parent =>
    obtain ⟨childNew, named, rfl, parentNew⟩ := builds
    exact ⟨childNew.2, fun id same => Option.some.inj same ▸ parentNew.2⟩
  | addParent child parent => exact ⟨builds.1.2, builds.2.2⟩
  | removeAttribute | removeAssociation | removeGeneralization => exact builds.elim

-- Nothing is ever taken out of a model.
theorem Edit.added_among (after : Model) (edit : Edit) :
    (before.added after).Among (before.added (edit.apply after)) := by
  cases edit with
  | setSuperclass child parent => exact (after.sameButLinks_setSuperclass child parent).added_among _
  | addParent child parent => exact (after.sameButLinks_addParent child parent).added_among _
  | removeGeneralization parent child =>
    exact (after.sameButLinks_removeGeneralization parent child).added_among _
  | _ =>
    apply Model.added_among <;>
      simp [apply, Model.insertEntity, Model.attachAttribute, Model.removeAttribute,
        Model.addAssociation, Model.removeAssociation, Model.linkInverse, Model.addOperation,
        Model.addInvariant, Model.modifyEntity, Model.modifyAssociation]

end

namespace Model

/-- The second model has all of the first one, and what it has beyond that refers to nothing else. -/
structure AddsApart (before after : Model) : Prop where
  kept : before.Extends after
  refer : AdditionsReferTo (before.added after) before after

namespace AddsApart

theorem refl (model : Model) : AddsApart model model where
  kept := .refl model
  refer := ⟨.nothing _ _, .nothing _ _, .nothing _ _, .nothing _ _, .nothing _ _⟩

variable {before after : Model} (apart : AddsApart before after)

include apart

theorem grownApart : GrownApart before after where
  kept := apart.kept
  superclasses id new parent named :=
    have listed : parent ∈ (after.entityAt id).allParents :=
      List.mem_append_left _ (Option.mem_toList.mpr named)
    Nat.not_lt_of_le ((apart.refer.entityAt new).parents parent listed).1
  attributes _ new listed member :=
    Nat.not_lt_of_le ((apart.refer.entityAt new).attributes listed member).1

theorem extends_apply {edit : Edit} (builds : edit.BuildsOn (before.added after)) :
    before.Extends (edit.apply after) := by
  have new : ∀ {id}, (before.added after).entities id → ¬ before.HasEntity id :=
    fun added => Nat.not_lt_of_le added.1
  cases edit with
  | insertEntity entity => exact apart.kept.insertEntity entity
  | attachAttribute entity added => exact apart.kept.attachAttribute (new builds.1) added
  | addAssociation added => exact (apart.grownApart.addAssociation (new builds.near)).kept
  | linkInverse first second =>
    exact apart.kept.linkInverse (Nat.not_lt_of_le builds.1.1) (Nat.not_lt_of_le builds.2.1)
  | addOperation added =>
    have pushed : before.Extends { after with operations := after.operations.push added } :=
      { apart.kept with operations := apart.kept.operations.push added }
    exact pushed.modifyEntity (new builds.owner) _
  | addInvariant added =>
    have pushed : before.Extends { after with invariants := after.invariants.push added } :=
      { apart.kept with invariants := apart.kept.invariants.push added }
    exact pushed.modifyEntity (new builds) _
  | setSuperclass child parent =>
    obtain ⟨childNew, named, rfl, parentNew⟩ := builds
    exact (apart.grownApart.setSuperclass (new childNew) (new parentNew)).kept
  | addParent child parent => exact (apart.grownApart.addParent (new builds.1) (new builds.2)).kept
  | removeAttribute | removeAssociation | removeGeneralization => exact builds.elim

theorem additionsReferTo_apply {edit : Edit} (builds : edit.BuildsOn (before.added after)) :
    AdditionsReferTo (before.added (edit.apply after)) before (edit.apply after) := by
  have among := edit.added_among before after
  have refer := apart.refer.mono among
  replace builds := builds.mono among
  cases edit with
  | insertEntity entity => exact refer.insertEntity builds.2
  | attachAttribute entity added =>
    refine refer.attachAttribute entity builds.2 ⟨apart.kept.attributes.size_le, ?_⟩
    exact after.hasAttribute_attachAttribute_nextAttribute entity added
  | addAssociation added =>
    refine refer.addAssociation builds ⟨apart.kept.associations.size_le, ?_⟩
    simp [Edit.apply, nextAssociation, Model.addAssociation, Model.modifyEntity]
  | linkInverse first second => exact refer.linkInverse builds.1 builds.2
  | addOperation added =>
    refine refer.addOperation builds ⟨apart.kept.operations.size_le, ?_⟩
    simp [Edit.apply, nextOperation, Model.addOperation, Model.modifyEntity]
  | addInvariant added =>
    refine refer.addInvariant builds ⟨apart.kept.invariants.size_le, ?_⟩
    simp [Edit.apply, nextInvariant, Model.addInvariant, Model.modifyEntity]
  | setSuperclass child parent =>
    obtain ⟨childAmong, named, rfl, parentAmong⟩ := builds
    exact refer.setSuperclass child childAmong parentAmong
  | addParent child parent => exact refer.addParent child builds.1 builds.2
  | removeAttribute | removeAssociation | removeGeneralization => exact builds.elim

theorem apply {edit : Edit} (builds : edit.BuildsOn (before.added after)) :
    AddsApart before (edit.apply after) :=
  ⟨apart.extends_apply builds, apart.additionsReferTo_apply builds⟩

end AddsApart

/-! ## Edits in sequence -/

/-- Edits each of which builds on what there is beyond the first model by then. -/
def EditsBuild (before after : Model) : List Edit → Prop
  | [] => True
  | edit :: rest => edit.BuildsOn (before.added after) ∧ EditsBuild before (edit.apply after) rest

section

variable {before after : Model} {edits : List Edit}

theorem added_among_foldl (edits : List Edit) :
    (before.added after).Among (before.added (edits.foldl Edit.apply after)) := by
  induction edits generalizing after with
  | nil => exact .refl _
  | cons edit rest ih => exact (edit.added_among before after).trans ih

theorem editsBuild_append {more : List Edit} : EditsBuild before after (edits ++ more) ↔
    EditsBuild before after edits ∧ EditsBuild before (edits.foldl Edit.apply after) more := by
  induction edits generalizing after with
  | nil => simp [EditsBuild]
  | cons edit rest ih => simp [EditsBuild, ih, and_assoc]

-- What edits build on at the start is there for each of them.
theorem editsBuild_of_forall {elements : Elements} (among : elements.Among (before.added after))
    (builds : ∀ edit ∈ edits, edit.BuildsOn elements) : EditsBuild before after edits := by
  induction edits generalizing after with
  | nil => trivial
  | cons edit rest ih =>
    refine ⟨(builds edit List.mem_cons_self).mono among, ?_⟩
    exact ih (among.trans (edit.added_among before after)) fun edit member =>
      builds edit (List.mem_cons_of_mem _ member)

theorem EditsBuild.addsApart (build : EditsBuild before after edits)
    (apart : AddsApart before after) : AddsApart before (edits.foldl Edit.apply after) := by
  induction edits generalizing after with
  | nil => exact apart
  | cons edit rest ih => exact ih build.2 (apart.apply build.1)

theorem EditsBuild.editsFit (build : EditsBuild before after edits) : EditsFit after edits := by
  induction edits generalizing after with
  | nil => trivial
  | cons edit rest ih => exact ⟨build.1.fits, ih build.2⟩

end

end Model

end ClassModel
