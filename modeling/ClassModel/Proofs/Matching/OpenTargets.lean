import ClassModel.Proofs.Matching.Pairs

/-! Open targets are not matched exactly.

Open targets are nonlocal ones, and local sources have been compared with all of those for equal types
when it comes to the open ones. What one stage has settled stays settled, since fewer and fewer
features are left. So a stage that comes later and looks for the same finds nothing.
-/

set_option autoImplicit false

namespace ClassModel

/-! ## Stages without effect -/

theorem Stage.runPass_of_settled {stage : Stage} {comparison : Comparison} {pairing : Pairing}
    (settled : comparison.Settled stage.pass.wanted stage.sources stage.targets pairing.found) :
    (comparison.runPass stage.pass stage.sources stage.targets pairing).value = pairing := by
  obtain ⟨further, found, each⟩ := (stage.grows_runPass comparison pairing).beyond
  cases further with
  | nil =>
    rw [List.append_nil] at found
    exact congrArg Pairing.mk found
  | cons pair rest =>
    obtain ⟨allowed, sourceLeft, targetLeft⟩ := each pair List.mem_cons_self
    exact absurd allowed.types
      (settled pair.source allowed.source pair.target allowed.target sourceLeft targetLeft)

namespace Engine

variable (comparison : Comparison) (stages first idle last : List Stage) (pairing : Pairing)

theorem value_runStages_of_settled
    (settled : ∀ stage ∈ stages,
      comparison.Settled stage.pass.wanted stage.sources stage.targets pairing.found) :
    (runStages comparison stages pairing).value = pairing := by
  induction stages with
  | nil => rfl
  | cons stage rest ih =>
    obtain ⟨now, later⟩ := List.forall_mem_cons.mp settled
    rw [value_runStages_cons, Stage.runPass_of_settled now, ih later]

theorem value_runStages_skip
    (settled : ∀ stage ∈ idle, comparison.Settled stage.pass.wanted stage.sources stage.targets
      (runStages comparison first pairing).value.found) :
    (runStages comparison (first ++ idle ++ last) pairing).value =
      (runStages comparison (first ++ last) pairing).value := by
  rw [value_runStages_append, value_runStages_append, value_runStages_append,
    value_runStages_of_settled comparison idle _ settled]

/-! ## Rounds -/

variable (engine : Engine) (mapping : Mapping) (source target : EntityId)

/-- The stages that come before those with open targets. -/
def closedStages : List Stage := (engine.stages mapping source target).take 8

/-- The stages that look for open targets of the same type as a local source. -/
def openExactStages : List Stage :=
  let sources := engine.model.localFeatures source
  let targets := engine.model.nonlocalTargetFeatures target mapping
  [⟨.exactName, sources, targets⟩, ⟨.byType .exact .exactType, sources, targets⟩]

/-- The stages that look for open targets of a type related to that of a local source. -/
def openRelatedStages : List Stage :=
  [⟨.byType .related .partialType, engine.model.localFeatures source,
    engine.model.nonlocalTargetFeatures target mapping⟩]

/-- The result for a pair of entities whose features are paired by the given stages. -/
def pairSimilarityThrough : Option EntityMatch :=
  if engine.breaksHierarchy mapping source target then none
  else
    let pairing := (runStages (engine.comparison mapping) stages
      ⟨engine.inheritedMatches mapping source⟩).value
    some { source, target, score := pairing.score, featureMatches := pairing.found }

theorem settled_openExactStages {stage : Stage}
    (listed : stage ∈ engine.openExactStages mapping source target) :
    comparison.Settled stage.pass.wanted stage.sources stage.targets
      (runStages comparison (engine.closedStages mapping source target) pairing).value.found := by
  have openOnes : comparison.Settled .exact (engine.model.localFeatures source)
      (engine.model.nonlocalTargetFeatures target mapping)
      (runStages comparison (engine.closedStages mapping source target) pairing).value.found := by
    intro left own right isOpen
    exact engine.settled_localSources source target (by simp [closedStages, stages])
      (by simp [closedStages, stages]) own (.inr (List.mem_filter.mp isOpen).1)
  simp only [openExactStages, List.mem_cons, List.not_mem_nil, or_false] at listed
  rcases listed with rfl | rfl <;> exact openOnes

/-- Scoring a pair of entities takes the closed stages, those that look for open targets of the same
type and those that look for related ones, and the same is found, or the same pair is refused, when
the ones in the middle are left out. -/
theorem pairSimilarity_withoutOpenExact :
    engine.stages mapping source target = engine.closedStages mapping source target ++
      engine.openExactStages mapping source target ++
      engine.openRelatedStages mapping source target ∧
    (engine.pairSimilarity mapping source target).value =
      engine.pairSimilarityThrough (engine.stages mapping source target) mapping source target ∧
    (engine.pairSimilarity mapping source target).value =
      engine.pairSimilarityThrough (engine.closedStages mapping source target ++
        engine.openRelatedStages mapping source target) mapping source target := by
  have split : engine.stages mapping source target = engine.closedStages mapping source target ++
      engine.openExactStages mapping source target ++
      engine.openRelatedStages mapping source target := rfl
  have whole := engine.value_pairSimilarity mapping source target
  refine ⟨split, whole, whole.trans ?_⟩
  have skipped := value_runStages_skip (engine.comparison mapping)
    (engine.closedStages mapping source target) (engine.openExactStages mapping source target)
    (engine.openRelatedStages mapping source target) ⟨engine.inheritedMatches mapping source⟩
    fun stage listed => settled_openExactStages _ _ engine mapping source target listed
  rw [pairSimilarityThrough, ← skipped, ← split]
  rfl

end Engine

end ClassModel
