import ClassModel.Model.Basic
import ClassModel.Diagnostic

/-! The chain of primary parents.

The chain of an entity starts with the entity itself and follows the superclasses. It stops before
the first entity it has already passed; that is reported as a cycle.
-/

set_option autoImplicit false

namespace ClassModel.Model

/-- The chain from an entity on, through entities not passed yet. -/
def chainThrough (model : Model) (remaining : List EntityId) (id : EntityId) : List EntityId :=
  match model.superclass id with
  | none => [id]
  | some parent =>
    if _fresh : parent ∈ remaining then id :: model.chainThrough (remaining.erase parent) parent
    else [id]
termination_by remaining.length
decreasing_by
  have smaller := List.length_erase_of_mem _fresh
  have positive := List.length_pos_of_mem _fresh
  omega

/-- An entity and its primary ancestors, nearest first. -/
def superclassChain (model : Model) (id : EntityId) : List EntityId :=
  model.chainThrough (model.entityIds.erase id) id

def ancestors (model : Model) (id : EntityId) : List EntityId := (model.superclassChain id).drop 1

/-- The cycle that ends a chain: its last entity has a superclass, which it has passed before. -/
def chainFindings (model : Model) (id : EntityId) : List Diagnostic :=
  let last := (model.superclassChain id).getLastD id
  match model.superclass last with
  | none => []
  | some revisited => [.cycle (model.name last) (model.name revisited)]

theorem chainThrough_ne_nil (model : Model) (remaining : List EntityId) (id : EntityId) :
    model.chainThrough remaining id ≠ [] := by
  unfold chainThrough
  split
  · simp
  · split <;> simp

theorem head?_chainThrough (model : Model) (remaining : List EntityId) (id : EntityId) :
    (model.chainThrough remaining id).head? = some id := by
  unfold chainThrough
  split
  · rfl
  · split <;> rfl

end ClassModel.Model
