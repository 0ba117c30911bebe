import ClassModel.Proofs.Inheritance.Chain
import ClassModel.Proofs.Inheritance.Reachability

/-! Three ways to ask who is above whom.

Descendants are found from above, along children; ancestors are looked for from below, along all
parents; and the chain of an entity follows primary parents alone. Where both ends of generalization
agree, the first two find the same pairs, on a cycle as well. The chain finds nothing else, and all
of it where there are no other parents.
-/

set_option autoImplicit false

namespace ClassModel

theorem nodup_gather {next : EntityId → List EntityId} {remaining waiting : List EntityId}
    (once : remaining.Nodup) : (gather next remaining waiting).Nodup := by
  fun_induction gather next remaining waiting with
  | case1 => exact .nil
  | case2 remaining waiting selected found ih =>
    refine List.nodup_cons.mpr ⟨fun again => ?_, ih (once.erase selected)⟩
    exact once.not_mem_erase (mem_of_mem_gather _ _ _ again)

namespace Model

/-! ## The chain of primary parents -/

theorem mem_ancestors_iff (model : Model) (id above : EntityId) :
    above ∈ model.ancestors id ↔ above ≠ id ∧ above ∈ model.superclassChain id := by
  have once := model.nodup_superclassChain id
  rw [superclassChain_eq_cons, List.nodup_cons] at once
  rw [superclassChain_eq_cons, List.mem_cons]
  constructor
  · intro member
    refine ⟨?_, .inr member⟩
    rintro rfl
    exact once.1 member
  · rintro ⟨other, same | member⟩
    · exact absurd same other
    · exact member

theorem reaches_of_mem_chainThrough {model : Model} (agree : model.LinksAgree)
    {remaining : List EntityId} {id above : EntityId}
    (member : above ∈ model.chainThrough remaining id) : model.Reaches above id := by
  have down : ∀ child parent, model.NamesSuperclass child parent → model.Down parent child :=
    fun child parent named =>
      (agree parent child).mpr ((model.mem_allParents parent child).mpr (.inl named))
  exact Relation.ReflTransGen.swap _ _
    (Relation.ReflTransGen.mono down _ _ (climbs_of_mem_chainThrough member))

/-- Nothing has more than a primary parent. -/
def SingleParents (model : Model) : Prop := ∀ id, (model.entityAt id).parents = []

theorem singleParents_iff (model : Model) :
    model.SingleParents ↔ ∀ id ∈ model.entityIds, (model.entityAt id).parents = [] := by
  refine ⟨fun single id _ => single id, fun single id => ?_⟩
  by_cases existing : model.HasEntity id
  · exact single id ((model.mem_entityIds id).mpr existing)
  · rw [entityAt_of_not_hasEntity _ _ existing]
    rfl

instance (model : Model) : Decidable model.SingleParents :=
  decidable_of_iff _ model.singleParents_iff.symm

section

variable {model : Model} (agree : model.LinksAgree)

include agree

theorem mem_superclassChain_of_down (single : model.SingleParents) {id child parent : EntityId}
    (member : child ∈ model.superclassChain id) (down : model.Down parent child) :
    parent ∈ model.superclassChain id := by
  have named : model.superclass child = some parent := by
    have either := (model.mem_allParents parent child).mp ((agree parent child).mp down)
    rw [single child] at either
    exact either.resolve_right List.not_mem_nil
  exact mem_superclassChain_of_superclass member named (hasEntity_of_down down)

theorem mem_superclassChain_of_above (single : model.SingleParents) {id above : EntityId}
    (below : Relation.TransGen model.Down above id) : above ∈ model.superclassChain id := by
  have start : id ∈ model.superclassChain id := by
    rw [superclassChain_eq_cons]
    exact List.mem_cons_self
  induction below using Relation.TransGen.head_induction_on with
  | single down => exact mem_superclassChain_of_down agree single start down
  | head down _ ih => exact mem_superclassChain_of_down agree single ih down

theorem isAncestor_of_mem_ancestors {id above : EntityId} (member : above ∈ model.ancestors id) :
    model.isAncestor above id = true := by
  obtain ⟨other, chained⟩ := (model.mem_ancestors_iff id above).mp member
  have reached := reaches_of_mem_chainThrough agree chained
  rw [isAncestor_iff agree]
  exact (Relation.reflTransGen_iff_eq_or_transGen.mp reached).resolve_left (Ne.symm other)

theorem mem_ancestors_iff_isAncestor (single : model.SingleParents) (id above : EntityId) :
    above ∈ model.ancestors id ↔ above ≠ id ∧ model.isAncestor above id = true := by
  constructor
  · intro member
    exact ⟨((model.mem_ancestors_iff id above).mp member).1, isAncestor_of_mem_ancestors agree member⟩
  · rintro ⟨other, above⟩
    rw [isAncestor_iff agree] at above
    exact (model.mem_ancestors_iff id _).mpr ⟨other, mem_superclassChain_of_above agree single above⟩

end

/-! ## All three -/

/-- Where both ends of generalization agree, cyclic or not, one entity is above another for the walk
along children exactly when it is for the walk along parents, which is when links lead from it to
the other; an entity is above itself exactly on a cycle. Primary ancestors are above, and where no
entity has additional parents they are all that is, but for the entity itself. -/
theorem LinksAgree.ancestry {model : Model} (agree : model.LinksAgree) :
    (∀ above below, model.isAncestor above below = true ↔
      Relation.TransGen model.Down above below) ∧
    (∀ above below, below ∈ model.descendants above ↔
      below ≠ above ∧ model.isAncestor above below = true) ∧
    (∀ above, (model.descendants above).Nodup) ∧
    (∀ id, model.isAncestor id id = true ↔ model.OnCycle id) ∧
    (∀ below, ∀ above ∈ model.ancestors below, model.isAncestor above below = true) ∧
    (model.SingleParents → ∀ below, (model.ancestors below).Nodup ∧
      ∀ above, above ∈ model.ancestors below ↔
        above ≠ below ∧ model.isAncestor above below = true) := by
  refine ⟨isAncestor_iff agree, fun above below => ?_, fun above => ?_,
    fun id => isAncestor_iff agree id id,
    fun below above member => isAncestor_of_mem_ancestors agree member,
    fun single below => ⟨?_, mem_ancestors_iff_isAncestor agree single below⟩⟩
  · rw [mem_descendants_iff agree, isAncestor_iff agree]
  · exact nodup_gather (model.nodup_entityIds.erase above)
  · exact (model.nodup_superclassChain below).sublist (List.drop_sublist 1 _)

/-- An entity below two that are above each other, and one that is its own superclass. -/
def roundabout : Model :=
  [Edit.insertEntity (.named "Dancer"), .insertEntity (.named "Lead"), .insertEntity (.named "Follow"),
    .insertEntity (.named "Solo"), .setSuperclass ⟨0⟩ (some ⟨1⟩), .setSuperclass ⟨1⟩ (some ⟨2⟩),
    .setSuperclass ⟨2⟩ (some ⟨1⟩), .setSuperclass ⟨3⟩ (some ⟨3⟩)].foldl Edit.apply .empty

theorem ancestry_roundabout :
    roundabout.LinksAgree ∧ roundabout.SingleParents ∧ ⟨0⟩ ∈ roundabout.descendants ⟨2⟩ ∧
      (roundabout.descendants ⟨2⟩).Nodup ∧ roundabout.isAncestor ⟨3⟩ ⟨3⟩ = true ∧
      ⟨3⟩ ∉ roundabout.ancestors ⟨3⟩ ∧ ⟨2⟩ ∈ roundabout.ancestors ⟨0⟩ := by
  have agree : roundabout.LinksAgree := by decide
  have single : roundabout.SingleParents := by decide
  obtain ⟨reached, below, once, onCycle, _, whole⟩ := LinksAgree.ancestry agree
  have followToLead : roundabout.Down ⟨2⟩ ⟨1⟩ := show _ ∈ roundabout.children _ by decide
  have leadToDancer : roundabout.Down ⟨1⟩ ⟨0⟩ := show _ ∈ roundabout.children _ by decide
  have alone : roundabout.Down ⟨3⟩ ⟨3⟩ := show _ ∈ roundabout.children _ by decide
  have above : roundabout.isAncestor ⟨2⟩ ⟨0⟩ = true :=
    (reached ⟨2⟩ ⟨0⟩).mpr (.head followToLead (.single leadToDancer))
  refine ⟨agree, single, (below ⟨2⟩ ⟨0⟩).mpr ⟨by decide, above⟩, once ⟨2⟩,
    (onCycle ⟨3⟩).mpr (.single alone), ?_,
    ((whole single ⟨0⟩).2 ⟨2⟩).mpr ⟨by decide, above⟩⟩
  exact fun member => (((whole single ⟨3⟩).2 ⟨3⟩).mp member).1 rfl

end Model

end ClassModel
