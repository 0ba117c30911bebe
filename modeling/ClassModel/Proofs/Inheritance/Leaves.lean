import ClassModel.Proofs.Inheritance.Agreement
import ClassModel.Proofs.Inheritance.Precedence
import ClassModel.Proofs.Inheritance.Reachability
import ClassModel.Proofs.Inheritance.Repair

/-! Leaf subclasses cover all subclasses.

Whether an entity is a leaf is asked once the cycles below the start are cut. There is no cycle left
then, so that every way down from a subclass ends, and it ends in a leaf.
-/

set_option autoImplicit false

namespace ClassModel.Model

variable {model : Model}

-- The last of all entities below, in the order of the links, has nobody below itself.
theorem LinksAgree.exists_leaf (agree : model.LinksAgree) (top : EntityId)
    (acyclic : ∀ lower, model.Reaches top lower → ¬ model.OnCycle lower) :
    ∃ leaf, model.Reaches top leaf ∧ model.children leaf = [] := by
  classical
  let pool := top :: model.entityIds.filter fun lower => model.Reaches top lower
  have inReach : ∀ lower ∈ pool, model.Reaches top lower := by
    intro lower member
    rcases List.mem_cons.mp member with rfl | below
    · exact .refl
    · simpa using (List.mem_filter.mp below).2
  have free : ∀ lower ∈ pool, ¬ Relation.TransGen (Function.swap model.Down) lower lower :=
    fun lower member cycle => acyclic lower (inReach lower member) (Relation.TransGen.swap _ _ cycle)
  obtain ⟨leaf, member, last⟩ := exists_source free (List.cons_ne_nil _ _)
  refine ⟨leaf, inReach leaf member, List.eq_nil_iff_forall_not_mem.mpr fun child listed => ?_⟩
  have below : child ∈ pool := List.mem_cons_of_mem _ (List.mem_filter.mpr
    ⟨(model.mem_entityIds child).mpr (agree.hasEntity listed),
      decide_eq_true ((inReach leaf member).tail listed)⟩)
  exact last child below (.single listed)

/-- What the leaf subclasses of an entity are, in the model that finding them leaves behind. -/
structure LeavesCover (model : Model) (id : EntityId) (walk : SubclassWalk) : Prop where
  once : walk.found.Nodup
  kept : (walk.model.entityAt id).cache.leafSubclasses = some walk.found
  leaves : ∀ entity, entity ∈ walk.found ↔
    entity ≠ id ∧ walk.model.Reaches id entity ∧ walk.model.children entity = []
  /-- Nobody is lost from below the entity when cycles are cut. -/
  descendants : ∀ entity, entity ∈ walk.model.descendants id ↔ entity ∈ model.descendants id
  cover : ∀ entity ∈ walk.model.descendants id,
    entity ∈ walk.found ∨ ∃ leaf ∈ walk.found, leaf ∈ walk.model.descendants entity
  none : walk.found = [] → walk.model.descendants id = []

section

variable (agree : model.LinksAgree) (id : EntityId)

-- Keeping the leaves changes no link.
theorem sameLinks_leafSubclasses :
    SameLinks (model.allSubclasses id).model (model.leafSubclasses id).model :=
  SameLinks.modifyEntity (fun _ => rfl) id _ fun _ => rfl

include agree

theorem linksAgree_leafSubclasses : (model.leafSubclasses id).model.LinksAgree :=
  (sameLinks_leafSubclasses id).linksAgree (model.allSubclasses_repaired agree id).agree

theorem reaches_leafSubclasses (lower : EntityId) :
    (model.leafSubclasses id).model.Reaches id lower ↔ model.Reaches id lower :=
  ((sameLinks_leafSubclasses id).reaches_iff id lower).trans
    ((model.allSubclasses_repaired agree id).inSight lower)

theorem mem_leafSubclasses {entity : EntityId} : entity ∈ (model.leafSubclasses id).found ↔
    entity ≠ id ∧ (model.leafSubclasses id).model.Reaches id entity ∧
      (model.leafSubclasses id).model.children entity = [] := by
  have found : (model.leafSubclasses id).found =
      (model.allSubclasses id).model.leavesAmong (model.allSubclasses id).found := rfl
  rw [found, leavesAmong, List.mem_filter, (model.allSubclasses_repaired agree id).covers,
    reaches_leafSubclasses agree, (sameLinks_leafSubclasses id).children, and_assoc, Entity.isLeaf,
    List.isEmpty_iff, children]

theorem exists_mem_leafSubclasses {entity : EntityId}
    (member : entity ∈ (model.leafSubclasses id).model.descendants id) :
    ∃ leaf ∈ (model.leafSubclasses id).found,
      (model.leafSubclasses id).model.Reaches entity leaf := by
  have same : SameLinks (model.allSubclasses id).model (model.leafSubclasses id).model :=
    sameLinks_leafSubclasses id
  have agreeAfter := linksAgree_leafSubclasses agree id
  obtain ⟨other, reached⟩ := (mem_descendants_iff_reaches agreeAfter id entity).mp member
  obtain ⟨leaf, below, childless⟩ := agreeAfter.exists_leaf entity fun lower further =>
    same.not_onCycle ((model.allSubclasses_repaired agree id).acyclic lower
      ((same.reaches_iff id lower).mp (reached.trans further)))
  -- The start has a child, on the way to the entity.
  have notStart : leaf ≠ id := by
    rintro rfl
    rcases (reaches_iff _ _ _).mp reached with rfl | ⟨child, link, _⟩
    · exact other rfl
    · rw [Down, childless] at link
      cases link
  exact ⟨leaf, (mem_leafSubclasses agree id).mpr ⟨notStart, reached.trans below, childless⟩, below⟩

end

/-- Leaf subclasses are the subclasses without children, and everybody below the entity is one or is
above one, on a cycle or not. -/
theorem LinksAgree.leafSubclasses_cover (agree : model.LinksAgree) {id : EntityId}
    (existing : model.HasEntity id) : LeavesCover model id (model.leafSubclasses id) := by
  have repaired := model.allSubclasses_repaired agree id
  have agreeAfter := linksAgree_leafSubclasses agree id
  refine ⟨repaired.once.filter _, ?kept, fun entity => mem_leafSubclasses agree id,
    fun entity => ?descendants, fun entity member => ?cover, fun none => ?none⟩
  case kept =>
    have there : (model.allSubclasses id).model.HasEntity id := by
      obtain ⟨_, gone, _⟩ := repaired.cuts
      rwa [HasEntity, gone.same.count]
    have changed := (model.allSubclasses id).model.entityAt_modifyEntity_same id
      (fun entity => { entity with cache :=
        { entity.cache with leafSubclasses := some (model.leafSubclasses id).found } }) there
    exact congrArg (fun entity => entity.cache.leafSubclasses) changed
  case descendants =>
    rw [mem_descendants_iff_reaches agreeAfter, mem_descendants_iff_reaches agree,
      reaches_leafSubclasses agree]
  case cover =>
    obtain ⟨leaf, listed, below⟩ := exists_mem_leafSubclasses agree id member
    by_cases here : leaf = entity
    · exact .inl (here ▸ listed)
    · exact .inr ⟨leaf, listed, (mem_descendants_iff_reaches agreeAfter entity leaf).mpr ⟨here, below⟩⟩
  case none =>
    refine List.eq_nil_iff_forall_not_mem.mpr fun entity member => ?_
    obtain ⟨leaf, listed, _⟩ := exists_mem_leafSubclasses agree id member
    exact List.not_mem_nil (none ▸ listed)

theorem leafSubclasses_cover_knot : knot.LinksAgree ∧ knot.HasEntity ⟨0⟩ ∧
    (knot.leafSubclasses ⟨0⟩).found = [⟨3⟩] ∧ (knot.leafSubclasses ⟨0⟩).findings ≠ [] ∧
      ⟨3⟩ ∈ (knot.leafSubclasses ⟨0⟩).model.descendants ⟨1⟩ := by
  have agree : knot.LinksAgree := by decide
  have existing : knot.HasEntity ⟨0⟩ := by decide
  have leaves : (knot.leafSubclasses ⟨0⟩).found = [⟨3⟩] := by decide +kernel
  have covered := agree.leafSubclasses_cover existing
  refine ⟨agree, existing, leaves, by decide +kernel, ?_⟩
  rcases covered.cover ⟨1⟩ (by decide +kernel) with leaf | ⟨leaf, listed, below⟩
  · rw [leaves] at leaf
    exact absurd leaf (by decide)
  · rw [leaves] at listed
    rwa [List.mem_singleton.mp listed] at below

end ClassModel.Model
