import ClassModel.Model.Basic
import ClassModel.Diagnostic

/-! Superclasses before subclasses.

Only links between the given entities count. Entities are placed once all their parents are; who
waits on a cycle comes last, in the given order, and is reported.
-/

set_option autoImplicit false

namespace ClassModel

/-- How many parents each entity still waits for. -/
abbrev Pending := List (EntityId × Nat)

namespace Pending

def count (pending : Pending) (id : EntityId) : Nat := (pending.lookup id).getD 0

def decrement (pending : Pending) (id : EntityId) : Pending :=
  pending.map fun entry => if entry.1 = id then (entry.1, entry.2 - 1) else entry

/-- Take one parent off each of the children in turn. Those that wait for no other are released. -/
def release (pending : Pending) : List EntityId → Pending × List EntityId
  | [] => (pending, [])
  | child :: rest =>
    let lowered := pending.decrement child
    let (final, released) := lowered.release rest
    (final, if lowered.count child = 0 then child :: released else released)

end Pending

namespace Model

/-- The different parents of an entity that are among the given ones. -/
def parentsAmong (model : Model) (members : List EntityId) (id : EntityId) : List EntityId :=
  ((model.allParents id).filter fun parent => parent != id && members.contains parent).eraseDups

/-- The given entities that are children of one of them, in the given order. -/
def childrenAmong (model : Model) (members : List EntityId) (id : EntityId) : List EntityId :=
  members.filter fun child => (model.children id).contains child && child != id

/-- Place, among the remaining entities, the one released earliest, and so on. -/
def placeInOrder (model : Model) (members remaining released : List EntityId)
    (pending : Pending) : List EntityId :=
  match _found : released.find? remaining.contains with
  | none => []
  | some placed =>
    let next := pending.release (model.childrenAmong members placed)
    placed :: model.placeInOrder members (remaining.erase placed) (released ++ next.2) next.1
termination_by remaining.length
decreasing_by
  have member : placed ∈ remaining := List.contains_iff_mem.mp (List.find?_some _found)
  have smaller := List.length_erase_of_mem member
  have positive := List.length_pos_of_mem member
  omega

/-- The entities that can be placed after all their parents. -/
def placeable (model : Model) (members : List EntityId) : List EntityId :=
  let pending : Pending := members.map fun id => (id, (model.parentsAmong members id).length)
  model.placeInOrder members members.eraseDups
    (members.filter fun id => pending.count id == 0) pending

/-- The entities that wait on a cycle, in the given order. -/
def unplaceable (model : Model) (members : List EntityId) : List EntityId :=
  let placed := model.placeable members
  members.eraseDups.filter fun id => !placed.contains id

def superclassFirstOrder (model : Model) (members : List EntityId) : List EntityId :=
  model.placeable members ++ model.unplaceable members

def orderFindings (model : Model) (members : List EntityId) : List Diagnostic :=
  (model.unplaceable members).map fun id =>
    .cycle (model.name id) (model.name ((model.superclass id).getD id))

end Model

end ClassModel
