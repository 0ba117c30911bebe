import ClassModel.Features.Basic
import ClassModel.Features.Boundary

/-! Composed paths: every path of at most a given length from an entity.

The attributes of an entity come before its roles, and every role is followed at once by the paths
that go on from its far side.
-/

set_option autoImplicit false

namespace ClassModel.Model

/-- The associations a path at an entity may go on through, after the one it came by. -/
def openRoles (model : Model) (policy : PathPolicy) (previous : Option AssociationId)
    (id : EntityId) : List AssociationId :=
  (model.definedAssociations id).filter fun role =>
    !model.crossesBoundary id role &&
      match policy, previous with
      | .allPaths, some previous => !model.isForbiddenInverse previous role
      | _, _ => true

/-- The paths of at most so many steps that go on from an entity, with the entities seen so far. -/
def pathsFrom (model : Model) (policy : PathPolicy) :
    (steps : Nat) → (previous : Option AssociationId) → (seen : List EntityId) → EntityId → List Path
  | 0, _, _, _ => []
  | steps + 1, previous, seen, id =>
    (model.definedAttributes id).map (fun last => [.attribute last]) ++
      (model.openRoles policy previous id).flatMap fun role =>
        [.role role] ::
          if policy.enters seen (model.far role) then
            (model.pathsFrom policy steps (some role) (model.far role :: seen) (model.far role)).map
              (.role role :: ·)
          else []

/-- The entities at which such paths are looked for, in the order in which they are entered. -/
def visitsFrom (model : Model) (policy : PathPolicy) :
    (steps : Nat) → (previous : Option AssociationId) → (seen : List EntityId) → EntityId →
      List EntityId
  | 0, _, _, _ => []
  | steps + 1, previous, seen, id =>
    id :: (model.openRoles policy previous id).flatMap fun role =>
      if policy.enters seen (model.far role) then
        model.visitsFrom policy steps (some role) (model.far role :: seen) (model.far role)
      else []

/-- All paths of one to `steps` steps. An entity in `seen` is not entered by a strict path, and
neither is the root. -/
def composedPaths (model : Model) (policy : PathPolicy) (root : EntityId) (seen : List EntityId)
    (steps : Nat) : List Path :=
  model.pathsFrom policy steps none (root :: seen) root

/-- What is found at the entities that are entered. -/
def composedFindings (model : Model) (policy : PathPolicy) (root : EntityId)
    (seen : List EntityId) (steps : Nat) : List Diagnostic :=
  (model.visitsFrom policy steps none (root :: seen) root).eraseDups.flatMap fun id =>
    model.attributeFindings id ++ model.associationFindings id

end ClassModel.Model
