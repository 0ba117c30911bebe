import ClassModel.Features.Nonlocal
import ClassModel.Inheritance.Reach
import ClassModel.Naming.Similarity

/-! Comparing features of two entities.

Types are compared through the correspondences found so far: a source entity stands for the target
it is mapped to. Only references to known entities can agree; a reference to any other is reported.
-/

set_option autoImplicit false

namespace ClassModel

inductive TypeMatch where
  | exact
  /-- Entities one of which is an ancestor of the other, or collections of different kinds. -/
  | related
  | different
  deriving DecidableEq, Repr

/-- What features are compared in: a model, its known entities, correspondences and a thesaurus. -/
structure Comparison where
  model : Model
  known : List EntityId
  mapping : Mapping
  thesaurus : Naming.Thesaurus

namespace Comparison

def entityMatch (comparison : Comparison) (source target : EntityId) : TypeMatch :=
  let image := comparison.mapping.imageOf source
  if !comparison.known.contains source || !comparison.known.contains target then .different
  else if source = target || image = target then .exact
  else if comparison.model.isAncestor image target || comparison.model.isAncestor target image then
    .related
  else .different

def typeMatch (comparison : Comparison) : TypeExpr → TypeExpr → TypeMatch
  | .primitive source, .primitive target => if source = target then .exact else .different
  | .entity source, .entity target => comparison.entityMatch source target
  | .collection sourceKind source, .collection targetKind target =>
    match comparison.typeMatch source target with
    | .different => .different
    | elements => if sourceKind = targetKind then elements else .related
  | _, _ => .different

def unknownEntity (comparison : Comparison) (id : EntityId) : List Diagnostic :=
  [.unresolved (comparison.model.name id) "type outside the matched entity set"]

/-- The first unknown entity met when two types are compared. -/
def typeFindings (comparison : Comparison) : TypeExpr → TypeExpr → List Diagnostic
  | .entity source, .entity target =>
    if !comparison.known.contains source then comparison.unknownEntity source
    else if !comparison.known.contains target then comparison.unknownEntity target
    else []
  | .collection _ source, .collection _ target => comparison.typeFindings source target
  | _, _ => []

def nameSimilarity (comparison : Comparison) (source target : Feature) : Float :=
  Naming.nameSimilarity comparison.thesaurus source.name target.name

/-- The similarity of the names when the types agree, half of it when they are related. -/
def featureSimilarity (comparison : Comparison) (source target : Feature) : Float :=
  match comparison.typeMatch source.type target.type with
  | .exact => comparison.nameSimilarity source target
  | .related => comparison.nameSimilarity source target / 2.0
  | .different => 0.0

def featureFindings (comparison : Comparison) (source target : Feature) : List Diagnostic :=
  comparison.typeFindings source.type target.type

/-- How well every source feature is covered by some target feature. -/
def sourceCoverage (comparison : Comparison) (sources targets : List Feature) : Float :=
  Fuzzy.softAndAll (sources.map fun source =>
    Fuzzy.softOrAll (targets.map fun target => comparison.featureSimilarity source target))

def sourceCoverageFindings (comparison : Comparison) (sources targets : List Feature) :
    List Diagnostic :=
  sources.flatMap fun source => targets.flatMap fun target =>
    comparison.featureFindings source target

/-- How well every target feature is covered by some source feature. -/
def targetCoverage (comparison : Comparison) (sources targets : List Feature) : Float :=
  Fuzzy.softAndAll (targets.map fun target =>
    Fuzzy.softOrAll (sources.map fun source => comparison.featureSimilarity source target))

def targetCoverageFindings (comparison : Comparison) (sources targets : List Feature) :
    List Diagnostic :=
  targets.flatMap fun target => sources.flatMap fun source =>
    comparison.featureFindings source target

end Comparison

end ClassModel
