import ClassModel.Proofs.Inheritance.Defined
import ClassModel.Proofs.Inheritance.Links
import Mathlib.Data.List.Chain
import Mathlib.Logic.Relation

/-! The chain of primary parents, whatever they lead to.

Going from superclass to superclass either ends or runs into a cycle, and the chain of an entity has all
that is passed on the way, once. The chain of its superclass goes the same way. It may come back to
the entity, but then it has passed everything else, so without the entity it is what is inherited.
-/

set_option autoImplicit false

namespace ClassModel.Model

def NamesSuperclass (model : Model) (child parent : EntityId) : Prop :=
  model.superclass child = some parent

/-- Following superclasses leads from the first entity to the second. -/
def Climbs (model : Model) : EntityId → EntityId → Prop :=
  Relation.ReflTransGen model.NamesSuperclass

/-- Following superclasses leads to an entity that has none. -/
def EndsAbove (model : Model) (id : EntityId) : Prop :=
  ∃ top, model.Climbs id top ∧ model.superclass top = none

/-- Following superclasses leads back to the entity. -/
def AboveItself (model : Model) (id : EntityId) : Prop :=
  Relation.TransGen model.NamesSuperclass id id

/-- Every superclass that is named is an entity of the model. -/
def SuperclassesExist (model : Model) : Prop :=
  ∀ child parent, model.superclass child = some parent → model.HasEntity parent

theorem LinksAgree.superclassesExist {model : Model} (agree : model.LinksAgree) :
    model.SuperclassesExist := fun child parent named =>
  hasEntity_of_down ((agree parent child).mpr ((model.mem_allParents parent child).mpr (.inl named)))

/-! ## What is on a chain -/

section

variable {model : Model} {remaining : List EntityId} {id : EntityId}

theorem superclassChain_eq_cons (model : Model) (id : EntityId) :
    model.superclassChain id = id :: model.ancestors id := by
  have first := model.head?_chainThrough (model.entityIds.erase id) id
  obtain ⟨rest, same⟩ := List.head?_eq_some_iff.mp first
  rw [ancestors, superclassChain, same]
  rfl

-- A chain climbs from each of its entities to the next one.
theorem isChain_chainThrough (model : Model) (remaining : List EntityId) (id : EntityId) :
    (model.chainThrough remaining id).IsChain model.NamesSuperclass := by
  fun_induction chainThrough model remaining id with
  | case1 | case3 => exact .singleton _
  | case2 remaining id parent named _ ih =>
    refine ih.cons fun next first => ?_
    rw [head?_chainThrough] at first
    exact Option.some.inj first ▸ named

theorem climbs_of_mem_chainThrough {above : EntityId}
    (member : above ∈ model.chainThrough remaining id) : model.Climbs id above := by
  fun_induction chainThrough model remaining id with
  | case1 | case3 =>
    rw [List.mem_singleton.mp member]
    exact .refl
  | case2 remaining id parent named _ ih =>
    rcases List.mem_cons.mp member with rfl | later
    · exact .refl
    · exact .head named (ih later)

-- A chain ends before an entity without a superclass or with one that it has passed.
theorem mem_chainThrough_of_superclass {child parent : EntityId}
    (member : child ∈ model.chainThrough remaining id)
    (named : model.superclass child = some parent) (fresh : parent ∈ remaining) :
    parent ∈ model.chainThrough remaining id := by
  fun_induction chainThrough model remaining id with
  | case1 remaining id none =>
    rw [List.mem_singleton.mp member, none] at named
    cases named
  | case2 remaining id next climbed there ih =>
    by_cases here : parent = next
    · have first := model.head?_chainThrough (remaining.erase next) next
      rw [here]
      exact List.mem_cons_of_mem _ (List.mem_of_mem_head? first)
    · have left : parent ∈ remaining.erase next := (List.mem_erase_of_ne here).mpr fresh
      rcases List.mem_cons.mp member with rfl | later
      · rw [climbed] at named
        exact absurd (Option.some.inj named).symm here
      · exact List.mem_cons_of_mem _ (ih later left)
  | case3 remaining id next climbed passed =>
    rw [List.mem_singleton.mp member, climbed] at named
    exact absurd (Option.some.inj named ▸ fresh) passed

theorem mem_superclassChain_of_superclass {child parent : EntityId}
    (member : child ∈ model.superclassChain id) (named : model.superclass child = some parent)
    (existing : model.HasEntity parent) : parent ∈ model.superclassChain id := by
  by_cases back : parent = id
  · rw [back, superclassChain_eq_cons]
    exact List.mem_cons_self
  · refine mem_chainThrough_of_superclass member named ?_
    exact (List.mem_erase_of_ne back).mpr ((model.mem_entityIds parent).mpr existing)

theorem mem_superclassChain_of_climbs (exist : model.SuperclassesExist) {above : EntityId}
    (climbs : model.Climbs id above) : above ∈ model.superclassChain id := by
  induction climbs with
  | refl =>
    rw [superclassChain_eq_cons]
    exact List.mem_cons_self
  | tail _ named ih => exact mem_superclassChain_of_superclass ih named (exist _ _ named)

/-! ## Where it ends -/

theorem getLast?_chainThrough_of_top {top : EntityId}
    (member : top ∈ model.chainThrough remaining id) (free : model.superclass top = none) :
    (model.chainThrough remaining id).getLast? = some top := by
  fun_induction chainThrough model remaining id with
  | case1 | case3 => rw [List.mem_singleton.mp member, List.getLast?_singleton]
  | case2 remaining id parent named _ ih =>
    rcases List.mem_cons.mp member with rfl | later
    · rw [free] at named
      cases named
    · rw [List.getLast?_cons_of_ne_nil (model.chainThrough_ne_nil _ _)]
      exact ih later

theorem chainFindings_of_getLast? {last : EntityId}
    (ends : (model.superclassChain id).getLast? = some last) :
    model.chainFindings id = (model.superclass last).toList.map fun revisited =>
      .cycle (model.name last) (model.name revisited) := by
  rw [chainFindings, List.getLastD_eq_getLast?, ends, Option.getD_some]
  cases model.superclass last <;> rfl

theorem reports_cycle_iff (exist : model.SuperclassesExist) :
    (∃ child revisited, .cycle child revisited ∈ model.chainFindings id) ↔
      ¬ model.EndsAbove id := by
  constructor
  · rintro ⟨child, revisited, reported⟩ ⟨top, climbs, free⟩
    have ends := getLast?_chainThrough_of_top (mem_superclassChain_of_climbs exist climbs) free
    rw [chainFindings_of_getLast? ends, free] at reported
    cases reported
  · intro endless
    obtain ⟨last, ends⟩ := Option.isSome_iff_exists.mp
      (List.getLast?_isSome.mpr (model.chainThrough_ne_nil (model.entityIds.erase id) id))
    have climbs : model.Climbs id last := climbs_of_mem_chainThrough (List.mem_of_getLast? ends)
    obtain ⟨revisited, named⟩ := Option.ne_none_iff_exists'.mp fun free => endless ⟨last, climbs, free⟩
    exact ⟨model.name last, model.name revisited, by
      rw [chainFindings_of_getLast? ends, named]
      exact List.mem_singleton_self _⟩

/-! ## The chain of the superclass -/

theorem chainThrough_of_passed
    (passed : ∀ parent, model.superclass id = some parent → parent ∉ remaining) :
    model.chainThrough remaining id = [id] := by
  unfold chainThrough
  split
  · rfl
  · rename_i parent named
    exact dif_neg (passed parent named)

-- Where the superclass of an entity is passed, a walk that comes to the entity stops there. So it is
-- the walk that leaves the entity out.
theorem chainThrough_erase {start : EntityId} (once : remaining.Nodup) (other : start ≠ id)
    (passed : ∀ parent, model.superclass id = some parent → parent ∉ remaining) :
    model.chainThrough (remaining.erase id) start =
      (model.chainThrough remaining start).erase id := by
  fun_induction chainThrough model remaining start with
  | case1 remaining start free =>
    unfold chainThrough
    simp [free, other]
  | case2 remaining start parent named fresh ih =>
    have step : ∀ rest, (start :: rest).erase id = start :: rest.erase id :=
      fun rest => List.erase_cons_tail (by simpa using other)
    rw [step, chainThrough]
    by_cases here : parent = id
    · subst here
      have gone : parent ∉ remaining.erase parent := once.not_mem_erase
      have stops : model.chainThrough (remaining.erase parent) parent = [parent] :=
        chainThrough_of_passed fun above named member =>
          passed above named (List.mem_of_mem_erase member)
      simp [named, gone, stops]
    · have left : parent ∈ remaining.erase id := (List.mem_erase_of_ne here).mpr fresh
      have later := ih (once.erase parent) here
        (fun above named member => passed above named (List.mem_of_mem_erase member))
      simp only [named, left, dite_true, List.cons.injEq, true_and]
      rw [List.erase_comm, later]
  | case3 remaining start parent named gone =>
    have goneToo : parent ∉ remaining.erase id := fun member => gone (List.mem_of_mem_erase member)
    unfold chainThrough
    simp [named, goneToo, other]

theorem superclassChain_of_superclass {parent : EntityId}
    (named : model.superclass id = some parent) (existing : model.HasEntity parent) :
    model.superclassChain id = id :: (model.superclassChain parent).erase id := by
  have once := model.nodup_entityIds
  by_cases itself : parent = id
  · subst itself
    have gone : parent ∉ model.entityIds.erase parent := once.not_mem_erase
    have stops : model.superclassChain parent = [parent] :=
      chainThrough_of_passed fun above same => by
        rw [named] at same
        exact Option.some.inj same ▸ gone
    simp [stops]
  · have fresh : parent ∈ model.entityIds.erase id :=
      (List.mem_erase_of_ne itself).mpr ((model.mem_entityIds parent).mpr existing)
    have passed : ∀ above, model.superclass id = some above →
        above ∉ model.entityIds.erase parent := by
      intro above same
      rw [named] at same
      exact Option.some.inj same ▸ once.not_mem_erase
    calc model.superclassChain id
        = id :: model.chainThrough ((model.entityIds.erase id).erase parent) parent := by
          rw [superclassChain, chainThrough]
          simp [named, fresh]
      _ = id :: model.chainThrough ((model.entityIds.erase parent).erase id) parent := by
          rw [List.erase_comm]
      _ = id :: (model.superclassChain parent).erase id := by
          rw [chainThrough_erase (once.erase parent) itself passed]
          rfl

theorem aboveItself_iff (exist : model.SuperclassesExist) {parent : EntityId}
    (named : model.superclass id = some parent) :
    model.AboveItself id ↔ id ∈ model.superclassChain parent := by
  constructor
  · intro cycle
    obtain ⟨next, first, climbs⟩ := Relation.TransGen.head'_iff.mp cycle
    obtain rfl : next = parent := Option.some.inj (first.symm.trans named)
    exact mem_superclassChain_of_climbs exist climbs
  · intro member
    exact .head' named (climbs_of_mem_chainThrough member)

/-! ## What is inherited -/

/-- The chain of an entity: it starts with the entity and goes on from each to its superclass, as long as
that is new. It is the entity and the chain of its superclass without the entity, and a cycle is
reported when it does not end with an entity that has no superclass. -/
structure ChainLaw (model : Model) (id : EntityId) : Prop where
  first : (model.superclassChain id).head? = some id
  once : (model.superclassChain id).Nodup
  linked : (model.superclassChain id).IsChain model.NamesSuperclass
  closed : ∀ child ∈ model.superclassChain id, ∀ parent, model.superclass child = some parent →
    parent ∈ model.superclassChain id
  alone : model.superclass id = none → model.superclassChain id = [id]
  inherited : ∀ parent, model.superclass id = some parent →
    model.superclassChain id = id :: (model.superclassChain parent).erase id
  cycle : (∃ child revisited, .cycle child revisited ∈ model.chainFindings id) ↔
    ¬ model.EndsAbove id

/-- What is defined for an entity are its own features and those of the chain of its superclass without
the entity: all that is defined for the superclass, unless the entity is above itself. -/
structure Inherits {Listed : Type} (model : Model) (own : Entity → List Listed)
    (defined : EntityId → List Listed) (id parent : EntityId) : Prop where
  ownFirst : defined id = own (model.entityAt id) ++
    ((model.superclassChain parent).erase id).flatMap fun above => own (model.entityAt above)
  all : ¬ model.AboveItself id → defined id = own (model.entityAt id) ++ defined parent

theorem SuperclassesExist.inherits (exist : model.SuperclassesExist) {parent : EntityId}
    (named : model.superclass id = some parent) {Listed : Type} (own : Entity → List Listed) :
    model.Inherits own
      (fun id => (model.superclassChain id).flatMap fun entity => own (model.entityAt entity))
      id parent := by
  have chain := superclassChain_of_superclass named (exist id parent named)
  constructor
  · rw [chain, List.flatMap_cons]
  · intro apart
    rw [aboveItself_iff exist named] at apart
    rw [chain, List.flatMap_cons, List.erase_of_not_mem apart]

/-- Inheritance is one law on every model that has the superclasses it names, as all reachable models do,
with cycles or without. -/
theorem SuperclassesExist.inheritance (exist : model.SuperclassesExist) (id : EntityId) :
    model.ChainLaw id ∧ ∀ parent, model.superclass id = some parent →
      model.Inherits Entity.attributes model.definedAttributes id parent ∧
      model.Inherits Entity.associations model.definedAssociations id parent ∧
      model.Inherits Entity.operations model.definedOperations id parent ∧
      model.Inherits Entity.invariants model.definedInvariants id parent := by
  refine ⟨?_, fun parent named => ⟨exist.inherits named _, exist.inherits named _,
    exist.inherits named _, exist.inherits named _⟩⟩
  exact {
    first := model.head?_chainThrough _ id
    once := model.nodup_superclassChain id
    linked := model.isChain_chainThrough _ id
    closed := fun child member parent named =>
      mem_superclassChain_of_superclass member named (exist child parent named)
    alone := superclassChain_of_free
    inherited := fun parent named => superclassChain_of_superclass named (exist id parent named)
    cycle := reports_cycle_iff exist }

end

/-- A guest below members and patrons, who are above each other, and a keeper above itself. -/
def lodge : Model :=
  [Edit.insertEntity (.named "Guest"), .insertEntity (.named "Member"),
    .insertEntity (.named "Patron"), .insertEntity (.named "Keeper"),
    .setSuperclass ⟨0⟩ (some ⟨1⟩), .setSuperclass ⟨1⟩ (some ⟨2⟩), .setSuperclass ⟨2⟩ (some ⟨1⟩),
    .setSuperclass ⟨3⟩ (some ⟨3⟩),
    .attachAttribute ⟨0⟩ { name := "visits", type := .primitive "int", owner := ⟨0⟩ },
    .attachAttribute ⟨1⟩ { name := "since", type := .primitive "int", owner := ⟨1⟩ },
    .attachAttribute ⟨2⟩ { name := "gifts", type := .primitive "int", owner := ⟨2⟩ },
    .addOperation { name := "enter", owner := ⟨1⟩ },
    .addInvariant { antecedent := "gifts", consequent := "thanks", owner := ⟨2⟩,
                    isLocal := true }].foldl Edit.apply .empty

/-- The guest inherits all that members have. A member comes after its own patrons in their chain, and
has its features once. -/
theorem inheritance_lodge :
    lodge.SuperclassesExist ∧ lodge.superclassChain ⟨0⟩ = [⟨0⟩, ⟨1⟩, ⟨2⟩] ∧
      lodge.definedAttributes ⟨0⟩ = (lodge.entityAt ⟨0⟩).attributes ++ lodge.definedAttributes ⟨1⟩ ∧
      lodge.superclassChain ⟨2⟩ = [⟨2⟩, ⟨1⟩] ∧
      lodge.superclassChain ⟨1⟩ = ⟨1⟩ :: (lodge.superclassChain ⟨2⟩).erase ⟨1⟩ ∧
      ¬ lodge.EndsAbove ⟨0⟩ := by
  have exist : lodge.SuperclassesExist := LinksAgree.superclassesExist (by decide)
  have above : lodge.superclass ⟨0⟩ = some ⟨1⟩ := by decide
  obtain ⟨guest, inherits⟩ := SuperclassesExist.inheritance exist ⟨0⟩
  obtain ⟨member, _⟩ := SuperclassesExist.inheritance exist ⟨1⟩
  have apart : ¬ lodge.AboveItself ⟨0⟩ := by
    rw [aboveItself_iff exist above]
    decide +kernel
  refine ⟨exist, by decide +kernel, (inherits ⟨1⟩ above).1.all apart, by decide +kernel,
    member.inherited ⟨2⟩ (by decide), guest.cycle.mp ⟨"Patron", "Member", ?_⟩⟩
  decide +kernel

end ClassModel.Model
