import ClassModel.Features.Basic
import ClassModel.Features.Boundary
import ClassModel.Matching.Mapping

/-! Nonlocal features: two steps away, through an own association.

They are kept with the entity when they are asked for as a definition, and stay as they are until
they are defined again.
-/

set_option autoImplicit false

namespace ClassModel.Model

/-- The paths that go on from the far side of an own association: to a defined attribute, or
through a defined association that is neither the same nor leads straight back. -/
def pathsThrough (model : Model) (role : AssociationId) : List Path :=
  let far := model.far role
  (model.definedAttributes far).map (fun last => [.role role, .attribute last]) ++
    ((model.definedAssociations far).filter fun next =>
      next != role && !model.isForbiddenInverse role next).map fun next => [.role role, .role next]

def nonlocalFeatures (model : Model) (id : EntityId) : List Feature :=
  ((model.entityAt id).associations.flatMap model.pathsThrough).map (model.pathFeature id)

def nonlocalFindings (model : Model) (id : EntityId) : List Diagnostic :=
  (model.entityAt id).associations.flatMap fun role =>
    model.attributeFindings (model.far role) ++ model.associationFindings (model.far role)

/-- Whether a target feature can still be matched to: the entity on its way is concrete and no
source entity is mapped to it. -/
def isOpenTarget (model : Model) (mapping : Mapping) (feature : Feature) : Bool :=
  match feature.firstRole? with
  | some role =>
    (model.entityAt (model.far role)).isConcrete && !mapping.imageContains (model.far role)
  | none => false

def nonlocalTargetFeatures (model : Model) (id : EntityId) (mapping : Mapping) : List Feature :=
  (model.nonlocalFeatures id).filter (model.isOpenTarget mapping)

/-! ## Kept definitions -/

def defineLocal (model : Model) (id : EntityId) : Model :=
  model.modifyEntity id fun entity =>
    { entity with cache := { entity.cache with localFeatures := some (model.localFeatures id) } }

def defineNonlocal (model : Model) (id : EntityId) : Model :=
  model.modifyEntity id fun entity =>
    { entity with
      cache := { entity.cache with nonlocalFeatures := some (model.nonlocalFeatures id) } }

end ClassModel.Model
