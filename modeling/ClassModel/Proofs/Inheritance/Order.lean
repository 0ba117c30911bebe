import ClassModel.Inheritance.Order
import ClassModel.Proofs.Lists

/-! Superclasses before subclasses: every given entity is in the order, and once.

Whoever is not placed waits, so nobody is lost, whatever the links are.
-/

set_option autoImplicit false

namespace ClassModel.Model

section

variable (model : Model) (members : List EntityId) {remaining released : List EntityId}
  (pending : Pending)

theorem placeInOrder_of_none (found : released.find? remaining.contains = none) :
    model.placeInOrder members remaining released pending = [] := by
  unfold placeInOrder
  split
  · rfl
  · rename_i other
    cases found.symm.trans other

theorem placeInOrder_of_some {placed : EntityId}
    (found : released.find? remaining.contains = some placed) :
    model.placeInOrder members remaining released pending =
      placed :: model.placeInOrder members (remaining.erase placed)
        (released ++ (pending.release (model.childrenAmong members placed)).2)
        (pending.release (model.childrenAmong members placed)).1 := by
  conv_lhs => unfold placeInOrder
  split
  · rename_i other
    cases found.symm.trans other
  · rename_i also other
    cases found.symm.trans other
    rfl

end

theorem mem_placeInOrder (model : Model) (members remaining released : List EntityId)
    (pending : Pending) {id : EntityId}
    (member : id ∈ model.placeInOrder members remaining released pending) : id ∈ remaining := by
  fun_induction placeInOrder model members remaining released pending with
  | case1 => simp at member
  | case2 remaining released pending placed found next ih =>
    rcases List.mem_cons.mp member with rfl | later
    · exact List.contains_iff_mem.mp (List.find?_some found)
    · exact List.mem_of_mem_erase (ih later)

theorem nodup_placeInOrder (model : Model) {members remaining : List EntityId}
    (released : List EntityId) (pending : Pending) (once : remaining.Nodup) :
    (model.placeInOrder members remaining released pending).Nodup := by
  fun_induction placeInOrder model members remaining released pending with
  | case1 => exact .nil
  | case2 remaining released pending placed _ next ih =>
    refine List.nodup_cons.mpr ⟨fun again => ?_, ih (once.erase placed)⟩
    exact once.not_mem_erase (model.mem_placeInOrder _ _ _ _ again)

theorem mem_superclassFirstOrder (model : Model) {members : List EntityId} {id : EntityId} :
    id ∈ model.superclassFirstOrder members ↔ id ∈ members := by
  constructor
  · intro member
    rcases List.mem_append.mp member with placed | waiting
    · exact List.mem_eraseDups.mp (model.mem_placeInOrder _ _ _ _ placed)
    · exact List.mem_eraseDups.mp (List.mem_filter.mp waiting).1
  · intro given
    by_cases placed : id ∈ model.placeable members
    · exact List.mem_append_left _ placed
    · refine List.mem_append_right _ (List.mem_filter.mpr ⟨List.mem_eraseDups.mpr given, ?_⟩)
      simpa using placed

theorem nodup_superclassFirstOrder (model : Model) (members : List EntityId) :
    (model.superclassFirstOrder members).Nodup := by
  have placed : (model.placeable members).Nodup :=
    model.nodup_placeInOrder _ _ (nodup_eraseDups members)
  have waiting : (model.unplaceable members).Nodup := (nodup_eraseDups members).filter _
  refine List.nodup_append.mpr ⟨placed, waiting, ?_⟩
  rintro id early later late rfl
  simpa [early] using (List.mem_filter.mp late).2

end ClassModel.Model
