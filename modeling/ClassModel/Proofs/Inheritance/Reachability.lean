import ClassModel.Inheritance.Reach
import ClassModel.Proofs.Inheritance.Defined
import ClassModel.Proofs.Inheritance.Links

/-! Ancestors and descendants are what the links lead to.

A walk takes every entity away when it comes to it. It gathers all there is to gather because the
entities that wait are never forgotten, only skipped when they are gathered already.
-/

set_option autoImplicit false

namespace ClassModel

/-! ## Walks -/

section

variable {next : EntityId → List EntityId} {remaining waiting : List EntityId}

theorem reached_of_mem_gather {id : EntityId} (member : id ∈ gather next remaining waiting) :
    ∃ start ∈ waiting, Relation.ReflTransGen (fun upper lower => lower ∈ next upper) start id := by
  fun_induction gather next remaining waiting with
  | case1 => cases member
  | case2 remaining waiting selected found ih =>
    have waits : selected ∈ waiting := List.mem_of_find?_eq_some found
    rcases List.mem_cons.mp member with rfl | later
    · exact ⟨id, waits, .refl⟩
    · obtain ⟨start, among, walk⟩ := ih later
      rcases List.mem_append.mp among with before | added
      · exact ⟨start, before, walk⟩
      · exact ⟨selected, waits, walk.head added⟩

theorem mem_gather_of_waiting {id : EntityId} (waits : id ∈ waiting) (there : id ∈ remaining) :
    id ∈ gather next remaining waiting := by
  fun_induction gather next remaining waiting with
  | case1 remaining waiting none =>
    exact absurd (List.contains_iff_mem.mpr there) (List.find?_eq_none.mp none id waits)
  | case2 remaining waiting selected found ih =>
    by_cases now : id = selected
    · exact List.mem_cons.mpr (.inl now)
    · exact List.mem_cons_of_mem _
        (ih (List.mem_append_left _ waits) ((List.mem_erase_of_ne now).mpr there))

-- What is gathered is closed under the steps of the walk, within what there is.
theorem mem_gather_of_next {upper lower : EntityId}
    (gathered : upper ∈ gather next remaining waiting) (step : lower ∈ next upper)
    (there : lower ∈ remaining) : lower ∈ gather next remaining waiting := by
  fun_induction gather next remaining waiting with
  | case1 => cases gathered
  | case2 remaining waiting selected found ih =>
    by_cases now : lower = selected
    · exact List.mem_cons.mpr (.inl now)
    · have left : lower ∈ remaining.erase selected := (List.mem_erase_of_ne now).mpr there
      refine List.mem_cons_of_mem _ ?_
      rcases List.mem_cons.mp gathered with rfl | later
      · exact mem_gather_of_waiting (List.mem_append_right _ step) left
      · exact ih later left

end

namespace Model

/-- An entity of the model to which going from parent to parent leads from another one. -/
def IsAbove (model : Model) (upper lower : EntityId) : Prop :=
  model.HasEntity upper ∧
    Relation.TransGen (fun parent child => parent ∈ model.allParents child) upper lower

theorem mem_reachableParents_iff_isAbove (model : Model) (upper lower : EntityId) :
    upper ∈ model.reachableParents lower ↔ model.IsAbove upper lower := by
  constructor
  · intro member
    obtain ⟨start, named, walk⟩ := reached_of_mem_gather member
    exact ⟨(model.mem_entityIds upper).mp (mem_of_mem_gather _ _ _ member),
      Relation.TransGen.tail' (Relation.ReflTransGen.swap _ _ walk) named⟩
  · rintro ⟨existing, above⟩
    induction above using Relation.TransGen.head_induction_on with
    | single named => exact mem_gather_of_waiting named ((model.mem_entityIds _).mpr existing)
    | head named _ ih =>
      -- Whoever has a parent is an entity of the model, so nobody in between is missing.
      have passed := ih (hasEntity_of_mem_allParents named)
      exact mem_gather_of_next passed named ((model.mem_entityIds _).mpr existing)

theorem isAncestor_iff_isAbove (model : Model) (upper lower : EntityId) :
    model.isAncestor upper lower = true ↔ model.IsAbove upper lower := by
  rw [isAncestor, List.contains_iff_mem, mem_reachableParents_iff_isAbove]

variable {model : Model} (agree : model.LinksAgree)

include agree

/-! ## Both directions -/

theorem isAbove_iff (upper lower : EntityId) :
    model.IsAbove upper lower ↔ Relation.TransGen model.Down upper lower := by
  have links : (fun parent child => parent ∈ model.allParents child) = model.Down := by
    funext parent child
    exact propext (agree parent child).symm
  rw [IsAbove, links, and_iff_right_iff_imp]
  intro below
  obtain ⟨next, down, _⟩ := Relation.TransGen.head'_iff.mp below
  exact hasEntity_of_down down

theorem isAncestor_iff (ancestor id : EntityId) :
    model.isAncestor ancestor id = true ↔ Relation.TransGen model.Down ancestor id := by
  rw [isAncestor_iff_isAbove, isAbove_iff agree]

theorem isDescendant_iff (descendant id : EntityId) :
    model.isDescendant descendant id = true ↔ Relation.TransGen model.Down id descendant :=
  isAncestor_iff agree id descendant

-- The entity itself is left out, also when a cycle leads back to it.
theorem mem_descendants_iff (id descendant : EntityId) :
    descendant ∈ model.descendants id ↔
      descendant ≠ id ∧ Relation.TransGen model.Down id descendant := by
  have once := model.nodup_entityIds
  constructor
  · intro member
    have left := mem_of_mem_gather _ _ _ member
    obtain ⟨child, listed, walk⟩ := reached_of_mem_gather member
    exact ⟨(once.mem_erase_iff.mp left).1, Relation.TransGen.head' listed walk⟩
  · rintro ⟨other, below⟩
    have step : ∀ {parent child}, model.Down parent child → child ≠ id →
        child ∈ model.entityIds.erase id := fun down other =>
      once.mem_erase_iff.mpr ⟨other, (model.mem_entityIds _).mpr (agree.hasEntity down)⟩
    suffices gathered : ∀ lower, Relation.TransGen model.Down id lower →
        lower = id ∨ lower ∈ model.descendants id from (gathered _ below).resolve_left other
    intro lower walk
    induction walk with
    | @single child down =>
      by_cases back : child = id
      · exact .inl back
      · exact .inr (mem_gather_of_waiting down (step down back))
    | @tail parent child _ down ih =>
      by_cases back : child = id
      · exact .inl back
      · rcases ih with rfl | gathered
        · exact .inr (mem_gather_of_waiting down (step down back))
        · exact .inr (mem_gather_of_next gathered down (step down back))

theorem mem_descendants_iff_reaches (id descendant : EntityId) :
    descendant ∈ model.descendants id ↔ descendant ≠ id ∧ model.Reaches id descendant := by
  rw [mem_descendants_iff agree, Reaches, Relation.reflTransGen_iff_eq_or_transGen]
  exact and_congr_right fun other => (or_iff_right other).symm

end Model

end ClassModel
