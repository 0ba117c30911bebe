import ClassModel.Model.Basic

/-! Reachability along generalization links.

A walk keeps the entities it has not met yet. Every step takes one of them away, so a walk ends on
any model, with cycles or without.
-/

set_option autoImplicit false

namespace ClassModel

/-- The members of `remaining` that can be reached from those waiting, in the order of discovery.
Who waits longest is visited first. -/
def gather (next : EntityId → List EntityId) (remaining waiting : List EntityId) :
    List EntityId :=
  match _found : waiting.find? remaining.contains with
  | none => []
  | some selected =>
    selected :: gather next (remaining.erase selected) (waiting ++ next selected)
termination_by remaining.length
decreasing_by
  have member : selected ∈ remaining := List.contains_iff_mem.mp (List.find?_some _found)
  have smaller := List.length_erase_of_mem member
  have positive := List.length_pos_of_mem member
  omega

theorem mem_of_mem_gather (next : EntityId → List EntityId) (remaining waiting : List EntityId)
    {id : EntityId} (member : id ∈ gather next remaining waiting) : id ∈ remaining := by
  fun_induction gather next remaining waiting with
  | case1 => simp at member
  | case2 remaining waiting selected found ih =>
    rcases List.mem_cons.mp member with rfl | later
    · exact List.contains_iff_mem.mp (List.find?_some found)
    · exact List.mem_of_mem_erase (ih later)

namespace Model

/-- Every entity reached from an entity along at least one link to a parent. -/
def reachableParents (model : Model) (id : EntityId) : List EntityId :=
  gather model.allParents model.entityIds (model.allParents id)

/-- Whether the first entity is reached from the second through primary or additional parents. -/
def isAncestor (model : Model) (ancestor id : EntityId) : Bool :=
  (model.reachableParents id).contains ancestor

def isDescendant (model : Model) (descendant id : EntityId) : Bool :=
  model.isAncestor id descendant

/-- The other entities reached through children, nearest first. -/
def descendants (model : Model) (id : EntityId) : List EntityId :=
  gather model.children (model.entityIds.erase id) (model.children id)

end Model

end ClassModel
