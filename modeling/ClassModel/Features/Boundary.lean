import ClassModel.Model.Basic

/-! Which associations a path may go through.

A path does not leave the source side for the target side or the target side for the source side,
and a path that may come back to an entity does not do so on the association it came by.
-/

set_option autoImplicit false

namespace ClassModel

/-- What keeps a composed path from running in circles. -/
inductive PathPolicy where
  /-- A path enters no entity twice. -/
  | strict
  /-- A path may enter an entity again, but not straight back along a role. -/
  | allPaths
  deriving DecidableEq, Repr

namespace PathPolicy

def ofAllPaths (allowed : Bool) : PathPolicy := if allowed then .allPaths else .strict

def label : PathPolicy → String
  | .strict => "strict"
  | .allPaths => "all-paths"

/-- Whether a path that has seen some entities may enter another. -/
def enters (policy : PathPolicy) (seen : List EntityId) (entity : EntityId) : Bool :=
  match policy with
  | .strict => !seen.contains entity
  | .allPaths => true

end PathPolicy

namespace Model

/-- Whether the second association leads straight back along the first: one is the inverse of the
other, or they join the same entities in opposite directions and an end of both has one name. -/
def isForbiddenInverse (model : Model) (first second : AssociationId) : Bool :=
  let a := model.associationAt first
  let b := model.associationAt second
  let linked := a.inverse == some second || b.inverse == some first
  let opposite := a.entity1 == b.entity2 && a.entity2 == b.entity1
  linked || (opposite && (a.role1 == some b.role2 || b.role1 == some a.role2))

/-- Whether following an association from an entity crosses between source and target. -/
def crossesBoundary (model : Model) (near : EntityId) (role : AssociationId) : Bool :=
  (model.entityAt near).provenance.crosses (model.entityAt (model.far role)).provenance

end Model

end ClassModel
