import ClassModel.Model.Edit

/-! Subclasses, with repair of cyclic generalization.

The walk goes down from an entity. A child that is already on the way from the start is a cycle: the
link to it is cut, the cycle is reported, and the walk goes on with the other children.
-/

set_option autoImplicit false

namespace ClassModel

/-- The model so far, the subclasses found in it and the cycles cut. -/
structure SubclassWalk where
  model : Model
  found : List EntityId := []
  findings : List Diagnostic := []

namespace SubclassWalk

def cut (walk : SubclassWalk) (parent child : EntityId) : SubclassWalk :=
  { walk with
    model := walk.model.removeGeneralization parent child
    findings := walk.findings ++ [.cycle (walk.model.name parent) (walk.model.name child)] }

def find (walk : SubclassWalk) (child : EntityId) : SubclassWalk :=
  if child ∈ walk.found then walk else { walk with found := walk.found ++ [child] }

@[simp] theorem find_model (walk : SubclassWalk) (child : EntityId) :
    (walk.find child).model = walk.model := by
  unfold find
  split <;> rfl

/-- Go through the children of an entity. `branch` is the way from the start to it. A way has no
repeats, so as many levels as there are entities are enough. -/
def visit : (levels : Nat) → (branch : List EntityId) → SubclassWalk → EntityId → SubclassWalk
  | 0, _, walk, _ => walk
  | levels + 1, branch, walk, parent =>
    (walk.model.children parent).foldl (fun walk child =>
      if child ∈ branch then walk.cut parent child
      else visit levels (child :: branch) (walk.find child) child) walk

end SubclassWalk

namespace Model

/-- All subclasses of an entity, and the model without the cycles met on the way. -/
def allSubclasses (model : Model) (id : EntityId) : SubclassWalk :=
  SubclassWalk.visit model.entityCount [id] { model } id

/-- The subclasses that have no children once the cycles are cut. -/
def leavesAmong (model : Model) (found : List EntityId) : List EntityId :=
  found.filter fun id => (model.entityAt id).isLeaf

/-- The subclasses without children. They are kept with the entity. -/
def leafSubclasses (model : Model) (id : EntityId) : SubclassWalk :=
  let walk := model.allSubclasses id
  let leaves := walk.model.leavesAmong walk.found
  { walk with
    model := walk.model.modifyEntity id fun entity =>
      { entity with cache := { entity.cache with leafSubclasses := some leaves } }
    found := leaves }

end Model

end ClassModel
