import ClassModel.Matching.Passes
import ClassModel.Inheritance.Order

/-! Matching the entities of two models.

A pair of entities is scored by pairing their features; recording the result is a step of its own.
Whole models are matched greedily, superclasses first, by a ranking that combines names, features
and the correspondences of superclasses.
-/

set_option autoImplicit false

namespace ClassModel

structure Weights where
  name : Float := 1.0 / 3.0
  features : Float := 1.0 / 3.0
  superclasses : Float := 1.0 / 3.0
  deriving BEq

structure MatchOptions where
  /-- Take correspondences over from superclasses, and refuse pairs that break the hierarchy. -/
  strict : Bool := true
  weights : Weights := {}

structure Engine where
  model : Model
  thesaurus : Naming.Thesaurus := .empty
  /-- The entities that types may refer to. -/
  known : List EntityId
  options : MatchOptions := {}

structure Stage where
  pass : Pass
  sources : List Feature
  targets : List Feature

namespace Engine

def comparison (engine : Engine) (mapping : Mapping) : Comparison :=
  { model := engine.model, known := engine.known, mapping, thesaurus := engine.thesaurus }

/-! ## Pairs of entities -/

/-- The pairs a source takes over from the correspondence of its superclass. -/
def inheritedMatches (engine : Engine) (mapping : Mapping) (source : EntityId) :
    List FeatureMatch :=
  if engine.options.strict then
    match (engine.model.superclass source).bind mapping.get? with
    | some correspondence =>
      correspondence.featureMatches.map fun pair => { pair with kind := .inherited, score := 1.0 }
    | none => []
  else []

/-- Whether a strict engine refuses a pair: the source is not mapped, and a subclass of it is mapped
to an entity that is neither the target nor below it. -/
def breaksHierarchy (engine : Engine) (mapping : Mapping) (source target : EntityId) : Bool :=
  engine.options.strict && (mapping.get? source).isNone &&
    ((engine.model.descendants source).filterMap mapping.targetOf?).any fun image =>
      image != target && !engine.model.isDescendant image target

/-- The passes in their order: local sources against local and nonlocal targets, nonlocal sources
against the same, and local sources against the nonlocal targets that are still open. -/
def stages (engine : Engine) (mapping : Mapping) (source target : EntityId) : List Stage :=
  let model := engine.model
  let sourceLocal := model.localFeatures source
  let sourceNonlocal := model.nonlocalFeatures source
  let targetLocal := model.localFeatures target
  let targetNonlocal := model.nonlocalFeatures target
  let targetOpen := model.nonlocalTargetFeatures target mapping
  [⟨.exactName, sourceLocal, targetLocal⟩,
    ⟨.byType .exact .exactType, sourceLocal, targetLocal⟩,
    ⟨.byType .exact .composedType, sourceLocal, targetNonlocal⟩,
    ⟨.byType .related .partialType, sourceLocal, targetLocal⟩,
    ⟨.exactName, sourceNonlocal, targetLocal⟩,
    ⟨.byType .exact .exactType, sourceNonlocal, targetLocal⟩,
    ⟨.byType .exact .composedType, sourceNonlocal, targetNonlocal⟩,
    ⟨.byType .related .partialType, sourceNonlocal, targetLocal⟩,
    ⟨.exactName, sourceLocal, targetOpen⟩,
    ⟨.byType .exact .exactType, sourceLocal, targetOpen⟩,
    ⟨.byType .related .partialType, sourceLocal, targetOpen⟩]

def runStages (comparison : Comparison) (stages : List Stage) (pairing : Pairing) :
    Noted Pairing :=
  stages.foldlM (fun pairing stage =>
    comparison.runPass stage.pass stage.sources stage.targets pairing) pairing

/-- Pair the features of two entities, from the pairs taken over on. -/
def scorePair (engine : Engine) (mapping : Mapping) (source target : EntityId)
    (inherited : Pairing) : Noted EntityMatch := do
  let model := engine.model
  let stages ← Noted.of (engine.stages mapping source target)
    (model.nonlocalFindings source ++ model.nonlocalFindings target)
  let pairing ← runStages (engine.comparison mapping) stages inherited
  Noted.say (.scoredPair (model.name source) (model.name target) pairing.found.length pairing.score)
  return { source, target, score := pairing.score, featureMatches := pairing.found }

/-- Score a source against a target; none when the pair is refused. -/
def pairSimilarity (engine : Engine) (mapping : Mapping) (source target : EntityId) :
    Noted (Option EntityMatch) := do
  let sourceName := engine.model.name source
  let targetName := engine.model.name target
  Noted.say (.scoring sourceName targetName)
  let inherited ← (engine.inheritedMatches mapping source).foldlM Pairing.consume {}
  if engine.breaksHierarchy mapping source target then
    (fun _ => none) <$> Noted.say (.noCommonAncestor sourceName targetName)
  else some <$> engine.scorePair mapping source target inherited

/-- The score of a pair and the mapping with the pair recorded; a refused pair scores zero. -/
def similarity (engine : Engine) (mapping : Mapping) (source target : EntityId) :
    Noted (Float × Mapping) := do
  match ← engine.pairSimilarity mapping source target with
  | some found => return (found.score, mapping.record found)
  | none => return (0.0, mapping)

/-! ## Ranking -/

def sourceCoverage (engine : Engine) (mapping : Mapping) (source target : EntityId) :
    Noted Float :=
  let sources := engine.model.localFeatures source
  let targets := engine.model.localFeatures target
  .of ((engine.comparison mapping).sourceCoverage sources targets)
    ((engine.comparison mapping).sourceCoverageFindings sources targets)

def targetCoverage (engine : Engine) (mapping : Mapping) (source target : EntityId) :
    Noted Float :=
  let sources := engine.model.localFeatures source
  let targets := engine.model.localFeatures target
  .of ((engine.comparison mapping).targetCoverage sources targets)
    ((engine.comparison mapping).targetCoverageFindings sources targets)

/-- The part that the images of a source chain and a target chain share of all they hold. -/
def chainOverlap (engine : Engine) (mapping : Mapping) (source target : EntityId) : Float :=
  let image := ((engine.model.superclassChain source).filterMap mapping.targetOf?).eraseDups
  let chain := engine.model.superclassChain target
  let shared := image.filter chain.contains
  let union := chain ++ image.filter fun id => !chain.contains id
  if union.isEmpty then 0.0 else Float.ofNat shared.length / Float.ofNat union.length

/-- The overlap of the superclasses and the score of the pair for each local source feature. -/
def superclassSimilarity (engine : Engine) (mapping : Mapping) (source target : EntityId) :
    Noted Float := do
  let overlap ← Noted.of (engine.chainOverlap mapping source target)
    (engine.model.chainFindings source ++ engine.model.chainFindings target)
  let featureCount := (engine.model.localFeatures source).length
  if featureCount = 0 then return overlap + 0.0
  else
    let found ← engine.pairSimilarity mapping source target
    return overlap + (found.map EntityMatch.score).getD 0.0 / Float.ofNat featureCount

def compositeSimilarity (engine : Engine) (mapping : Mapping) (source target : EntityId) :
    Noted Float := do
  let weights := engine.options.weights
  let name := Naming.nameSimilarity engine.thesaurus (engine.model.name source)
    (engine.model.name target)
  let features ← engine.sourceCoverage mapping source target
  let superclasses ← engine.superclassSimilarity mapping source target
  return weights.name * name + weights.features * features + weights.superclasses * superclasses

/-! ## Whole models -/

structure Ranked where
  target : EntityId
  composite : Float

/-- Keep the better of the best target so far and the next one; only a positive rank counts. -/
def rankNext (engine : Engine) (mapping : Mapping) (source : EntityId) (best : Option Ranked)
    (target : EntityId) : Noted (Option Ranked) := do
  let composite ← engine.compositeSimilarity mapping source target
  return if (best.map Ranked.composite).getD 0.0 < composite then some ⟨target, composite⟩ else best

def bestTarget (engine : Engine) (mapping : Mapping) (source : EntityId)
    (targets : List EntityId) : Noted (Option Ranked) :=
  targets.foldlM (engine.rankNext mapping source) none

structure Matching where
  mapping : Mapping
  matched : Nat := 0

def matchSource (engine : Engine) (targets : List EntityId) (state : Matching)
    (source : EntityId) : Noted Matching := do
  match ← engine.bestTarget state.mapping source targets with
  | none =>
    Noted.say (.noCandidate (engine.model.name source))
    return state
  | some best =>
    let (_, mapping) ← engine.similarity state.mapping source best.target
    if mapping.targetOf? source = some best.target then
      Noted.say (.matchedEntity (engine.model.name source) (engine.model.name best.target)
        best.composite)
      return ⟨mapping, state.matched + 1⟩
    else return ⟨mapping, state.matched⟩

/-- Give every source its best target, superclasses first. -/
def matchModels (engine : Engine) (mapping : Mapping) (sources targets : List EntityId) :
    Noted Matching := do
  let order ← Noted.of (engine.model.superclassFirstOrder sources)
    (engine.model.orderFindings sources)
  let state ← order.foldlM (engine.matchSource targets) { mapping }
  Noted.say (.matchedModels state.matched sources.length targets.length)
  return state

end Engine

/-- Every entity mapped to itself, each local feature to itself. -/
def Model.identityMatch (model : Model) (id : EntityId) : EntityMatch :=
  let features := model.localFeatures id
  { source := id
    target := id
    score := Float.ofNat features.length
    featureMatches := features.map fun feature => ⟨feature, feature, .exactNameType, 1.0⟩ }

def Model.identityMapping (model : Model) (entities : List EntityId) : Mapping :=
  (entities.map model.identityMatch).foldl Mapping.record .empty

end ClassModel
