import ClassModel.Model.Script
import ClassModel.Proofs.Matching.Passes

/-! The pairs of features found for two entities.

Beside what is taken over from the superclass, every pair comes from a stage, and every stage by
type has settled its pools when all of them are done.
-/

set_option autoImplicit false

namespace ClassModel

/-- How the types of a pair of this kind compare, unless it is taken over. -/
def MatchKind.wanted : MatchKind → TypeMatch
  | .partialType => .related
  | _ => .exact

/-- The own features of an entity and those two steps away. -/
def Model.IsFeatureOf (model : Model) (id : EntityId) (feature : Feature) : Prop :=
  feature ∈ model.localFeatures id ∨ feature ∈ model.nonlocalFeatures id

namespace Engine

variable (engine : Engine) (mapping : Mapping) (source target : EntityId)

/-! ## Values without notes -/

theorem value_takenOver (inherited : List FeatureMatch) (pairing : Pairing) :
    (inherited.foldlM Pairing.consume pairing).value = ⟨pairing.found ++ inherited⟩ := by
  induction inherited generalizing pairing with
  | nil => simp
  | cons pair rest ih => simp [ih, Pairing.add]

theorem featureMatches_scorePair (inherited : Pairing) :
    (engine.scorePair mapping source target inherited).value.featureMatches =
      (runStages (engine.comparison mapping) (engine.stages mapping source target)
        inherited).value.found := rfl

theorem value_pairSimilarity : (engine.pairSimilarity mapping source target).value =
    if engine.breaksHierarchy mapping source target then none
    else some (engine.scorePair mapping source target
      ⟨engine.inheritedMatches mapping source⟩).value := by
  unfold pairSimilarity
  simp only [Noted.value_bind, value_takenOver]
  split <;> rfl

theorem inheritedMatches_empty : engine.inheritedMatches .empty source = [] := by
  have unrecorded : (engine.model.superclass source).bind Mapping.empty.get? = none :=
    Option.bind_eq_none_iff.mpr fun _ _ => rfl
  simp [inheritedMatches, unrecorded]

theorem breaksHierarchy_empty : engine.breaksHierarchy .empty source target = false := by
  have unmapped : (engine.model.descendants source).filterMap Mapping.empty.targetOf? = [] :=
    List.filterMap_eq_nil_iff.mpr fun _ _ => rfl
  simp [breaksHierarchy, unmapped]

-- Without correspondences nothing is taken over and nothing refused.
theorem value_pairSimilarity_empty : (engine.pairSimilarity .empty source target).value =
    some (engine.scorePair .empty source target {}).value := by
  rw [value_pairSimilarity, breaksHierarchy_empty, inheritedMatches_empty]
  rfl

theorem pairSimilarity_eq_some {found : EntityMatch}
    (matched : (engine.pairSimilarity mapping source target).value = some found) :
    engine.breaksHierarchy mapping source target = false ∧
      found = (engine.scorePair mapping source target
        ⟨engine.inheritedMatches mapping source⟩).value := by
  rw [value_pairSimilarity] at matched
  split at matched
  · cases matched
  · rename_i fits
    exact ⟨Bool.not_eq_true _ ▸ fits, (Option.some.inj matched).symm⟩

theorem exists_of_mem_inheritedMatches {pair : FeatureMatch}
    (member : pair ∈ engine.inheritedMatches mapping source) :
    ∃ earlier : FeatureMatch, pair = { earlier with kind := .inherited, score := 1.0 } := by
  unfold inheritedMatches at member
  split at member
  · split at member
    · obtain ⟨earlier, _, rfl⟩ := List.mem_map.mp member
      exact ⟨earlier, rfl⟩
    · cases member
  · cases member

theorem kind_of_mem_inheritedMatches {pair : FeatureMatch}
    (member : pair ∈ engine.inheritedMatches mapping source) : pair.kind = .inherited := by
  obtain ⟨_, rfl⟩ := engine.exists_of_mem_inheritedMatches mapping source member
  rfl

/-! ## Stages -/

variable {stage : Stage}

theorem stages_sources (listed : stage ∈ engine.stages mapping source target) :
    stage.sources = engine.model.localFeatures source ∨
      stage.sources = engine.model.nonlocalFeatures source := by
  simp only [stages, List.mem_cons, List.not_mem_nil, or_false] at listed
  rcases listed with rfl | rfl | rfl | rfl | rfl | rfl | rfl | rfl | rfl | rfl | rfl <;> simp

theorem stages_targets (listed : stage ∈ engine.stages mapping source target) :
    stage.targets = engine.model.localFeatures target ∨
      stage.targets = engine.model.nonlocalFeatures target ∨
      stage.targets = engine.model.nonlocalTargetFeatures target mapping := by
  simp only [stages, List.mem_cons, List.not_mem_nil, or_false] at listed
  rcases listed with rfl | rfl | rfl | rfl | rfl | rfl | rfl | rfl | rfl | rfl | rfl <;> simp

theorem isFeatureOf_of_mem_sources (listed : stage ∈ engine.stages mapping source target)
    {feature : Feature} (member : feature ∈ stage.sources) :
    engine.model.IsFeatureOf source feature := by
  rcases engine.stages_sources mapping source target listed with pool | pool
  · exact .inl (pool ▸ member)
  · exact .inr (pool ▸ member)

theorem isFeatureOf_of_mem_targets (listed : stage ∈ engine.stages mapping source target)
    {feature : Feature} (member : feature ∈ stage.targets) :
    engine.model.IsFeatureOf target feature := by
  rcases engine.stages_targets mapping source target listed with pool | pool | pool
  · exact .inl (pool ▸ member)
  · exact .inr (pool ▸ member)
  · rw [pool] at member
    exact .inr (List.mem_filter.mp member).1

theorem stages_wanted (listed : stage ∈ engine.stages mapping source target) :
    stage.pass.kind.wanted = stage.pass.wanted := by
  simp only [stages, List.mem_cons, List.not_mem_nil, or_false] at listed
  rcases listed with rfl | rfl | rfl | rfl | rfl | rfl | rfl | rfl | rfl | rfl | rfl <;> rfl

-- Local sources are compared with local and nonlocal targets for equal types. After that no own feature
-- has an equal type among the features of the target.
theorem settled_localSources {comparison : Comparison} {stages : List Stage} {pairing : Pairing}
    (near : ⟨.byType .exact .exactType, engine.model.localFeatures source,
      engine.model.localFeatures target⟩ ∈ stages)
    (distant : ⟨.byType .exact .composedType, engine.model.localFeatures source,
      engine.model.nonlocalFeatures target⟩ ∈ stages) {left right : Feature}
    (own : left ∈ engine.model.localFeatures source) (other : engine.model.IsFeatureOf target right)
    (sourceLeft : SourceLeft (runStages comparison stages pairing).value.found left)
    (targetLeft : TargetLeft (runStages comparison stages pairing).value.found right) :
    comparison.typeMatch left.type right.type ≠ .exact := by
  rcases other with listed | listed
  · exact settled_byType comparison stages pairing near left own right listed sourceLeft targetLeft
  · exact settled_byType comparison stages pairing distant left own right listed sourceLeft targetLeft

/-! ## Sound and maximal pairs -/

/-- What holds of the pairs found for a source and a target: those found by comparing pair features
of the two with types as their kind says, and what is left over compares no better. -/
structure Complete (found : List FeatureMatch) : Prop where
  sources : ∀ pair ∈ found, pair.kind ≠ .inherited → engine.model.IsFeatureOf source pair.source
  targets : ∀ pair ∈ found, pair.kind ≠ .inherited → engine.model.IsFeatureOf target pair.target
  types : ∀ pair ∈ found, pair.kind ≠ .inherited →
    (engine.comparison mapping).typeMatch pair.source.type pair.target.type = pair.kind.wanted
  leftLocal : ∀ left, engine.model.IsFeatureOf source left →
    ∀ right ∈ engine.model.localFeatures target, SourceLeft found left → TargetLeft found right →
    (engine.comparison mapping).typeMatch left.type right.type = .different
  leftNonlocal : ∀ left, engine.model.IsFeatureOf source left →
    ∀ right ∈ engine.model.nonlocalFeatures target, SourceLeft found left → TargetLeft found right →
    (engine.comparison mapping).typeMatch left.type right.type ≠ .exact
  leftOpen : ∀ left ∈ engine.model.localFeatures source,
    ∀ right ∈ engine.model.nonlocalTargetFeatures target mapping, SourceLeft found left →
    TargetLeft found right →
    (engine.comparison mapping).typeMatch left.type right.type = .different

theorem different_of_settled {comparison : Comparison} {sources targets : List Feature}
    {found : List FeatureMatch} (exact : comparison.Settled .exact sources targets found)
    (related : comparison.Settled .related sources targets found) {left right : Feature}
    (listed : left ∈ sources) (member : right ∈ targets) (sourceLeft : SourceLeft found left)
    (targetLeft : TargetLeft found right) :
    comparison.typeMatch left.type right.type = .different := by
  have notExact := exact left listed right member sourceLeft targetLeft
  have notRelated := related left listed right member sourceLeft targetLeft
  cases compared : comparison.typeMatch left.type right.type with
  | exact => exact absurd compared notExact
  | related => exact absurd compared notRelated
  | different => rfl

theorem runStages_complete (inherited : Pairing)
    (takenOver : ∀ pair ∈ inherited.found, pair.kind = .inherited) :
    engine.Complete mapping source target (runStages (engine.comparison mapping)
      (engine.stages mapping source target) inherited).value.found := by
  have grown := grows_runStages (engine.comparison mapping) (engine.stages mapping source target)
    inherited
  have settled : ∀ wanted kind sources targets,
      ⟨.byType wanted kind, sources, targets⟩ ∈ engine.stages mapping source target →
      (engine.comparison mapping).Settled wanted sources targets
        (runStages (engine.comparison mapping) (engine.stages mapping source target)
          inherited).value.found := by
    intro wanted kind sources targets listed
    exact settled_byType (engine.comparison mapping) _ inherited listed
  generalize (runStages (engine.comparison mapping) (engine.stages mapping source target)
    inherited).value = pairing at grown settled
  have fromStage : ∀ pair ∈ pairing.found, pair.kind ≠ .inherited →
      ∃ stage ∈ engine.stages mapping source target,
        stage.Allows (engine.comparison mapping) pair := by
    intro pair member compared
    rcases grown.mem pair member with early | found
    · exact absurd (takenOver pair early) compared
    · exact found
  -- Local and nonlocal sources go through the same passes over the local and nonlocal targets.
  let model := engine.model
  have poolOf : ∀ left, model.IsFeatureOf source left → ∃ pool,
      (pool = model.localFeatures source ∨ pool = model.nonlocalFeatures source) ∧ left ∈ pool := by
    rintro left (own | distant)
    · exact ⟨_, .inl rfl, own⟩
    · exact ⟨_, .inr rfl, distant⟩
  exact {
    sources := by
      intro pair member compared
      obtain ⟨stage, listed, allowed⟩ := fromStage pair member compared
      exact engine.isFeatureOf_of_mem_sources mapping source target listed allowed.source
    targets := by
      intro pair member compared
      obtain ⟨stage, listed, allowed⟩ := fromStage pair member compared
      exact engine.isFeatureOf_of_mem_targets mapping source target listed allowed.target
    types := by
      intro pair member compared
      obtain ⟨stage, listed, allowed⟩ := fromStage pair member compared
      rw [allowed.types, allowed.kind, engine.stages_wanted mapping source target listed]
    leftLocal := by
      intro left listed right member
      obtain ⟨pool, round, own⟩ := poolOf left listed
      have exact := settled .exact .exactType pool (model.localFeatures target)
        (by rcases round with rfl | rfl <;> simp [stages, model])
      have related := settled .related .partialType pool (model.localFeatures target)
        (by rcases round with rfl | rfl <;> simp [stages, model])
      exact different_of_settled exact related own member
    leftNonlocal := by
      intro left listed right member
      obtain ⟨pool, round, own⟩ := poolOf left listed
      have exact := settled .exact .composedType pool (model.nonlocalFeatures target)
        (by rcases round with rfl | rfl <;> simp [stages, model])
      exact exact left own right member
    leftOpen := by
      intro left own right member
      have exact := settled .exact .exactType (model.localFeatures source)
        (model.nonlocalTargetFeatures target mapping) (by simp [stages, model])
      have related := settled .related .partialType (model.localFeatures source)
        (model.nonlocalTargetFeatures target mapping) (by simp [stages, model])
      exact different_of_settled exact related own member }

theorem pairSimilarity_complete {found : EntityMatch}
    (matched : (engine.pairSimilarity mapping source target).value = some found) :
    engine.Complete mapping source target found.featureMatches := by
  rw [value_pairSimilarity] at matched
  split at matched
  · cases matched
  · obtain rfl := Option.some.inj matched
    rw [featureMatches_scorePair]
    refine engine.runStages_complete mapping source target _ ?_
    intro pair member
    exact engine.kind_of_mem_inheritedMatches mapping source member

end Engine

/-- Clients with photos and customers with addresses, both of them parties. -/
def clients : Model :=
  [Edit.insertEntity (.named "Party"), .insertEntity (.named "Client"),
    .insertEntity (.named "Party"), .insertEntity (.named "Customer"),
    .insertEntity (.named "Place"),
    .setSuperclass ⟨1⟩ (some ⟨0⟩), .setSuperclass ⟨3⟩ (some ⟨2⟩),
    .attachAttribute ⟨0⟩ { name := "id", type := .primitive "int", owner := ⟨0⟩ },
    .attachAttribute ⟨1⟩ { name := "name", type := .primitive "String", owner := ⟨1⟩ },
    .attachAttribute ⟨1⟩ { name := "age", type := .primitive "int", owner := ⟨1⟩ },
    .attachAttribute ⟨1⟩ { name := "notes", type := .setOf (.primitive "String"), owner := ⟨1⟩ },
    .attachAttribute ⟨1⟩ { name := "photo", type := .primitive "Image", owner := ⟨1⟩ },
    .attachAttribute ⟨2⟩ { name := "id", type := .primitive "int", owner := ⟨2⟩ },
    .attachAttribute ⟨3⟩ { name := "Name", type := .primitive "String", owner := ⟨3⟩ },
    .attachAttribute ⟨3⟩
      { name := "remarks", type := .sequenceOf (.primitive "String"), owner := ⟨3⟩ },
    .attachAttribute ⟨4⟩ { name := "zip", type := .primitive "int", owner := ⟨4⟩ },
    .addAssociation { entity1 := ⟨3⟩, entity2 := ⟨4⟩, role2 := "address" }].foldl
    Edit.apply .empty

def matchClients : Engine := { model := clients, known := clients.entityIds }

def partiesMapping : Mapping := (matchClients.similarity .empty ⟨0⟩ ⟨2⟩).value.2

def clientsMatch : EntityMatch :=
  (matchClients.scorePair partiesMapping ⟨1⟩ ⟨3⟩
    ⟨matchClients.inheritedMatches partiesMapping ⟨1⟩⟩).value

/-- Once the parties are mapped, a client and a customer have pairs of four kinds, and the photo and the
address are left over. -/
theorem pairSimilarity_clients :
    (matchClients.pairSimilarity partiesMapping ⟨1⟩ ⟨3⟩).value = some clientsMatch ∧
    (clientsMatch.featureMatches.map fun pair =>
      (pair.source.name, pair.target.name, pair.kind)) =
        [("id", "id", .inherited), ("name", "Name", .exactNameType),
          ("age", "address.zip", .composedType), ("notes", "remarks", .partialType)] ∧
    matchClients.Complete partiesMapping ⟨1⟩ ⟨3⟩ clientsMatch.featureMatches ∧
    SourceLeft clientsMatch.featureMatches (clients.attributeFeature ⟨4⟩) ∧
    TargetLeft clientsMatch.featureMatches (clients.roleFeature ⟨0⟩) ∧
    (matchClients.comparison partiesMapping).typeMatch (clients.attributeFeature ⟨4⟩).type
      (clients.roleFeature ⟨0⟩).type = .different := by
  have matched : (matchClients.pairSimilarity partiesMapping ⟨1⟩ ⟨3⟩).value =
      some clientsMatch := by
    rw [matchClients.value_pairSimilarity]
    exact if_neg (by decide +kernel)
  have complete := matchClients.pairSimilarity_complete partiesMapping ⟨1⟩ ⟨3⟩ matched
  have photoLeft : SourceLeft clientsMatch.featureMatches (clients.attributeFeature ⟨4⟩) := by
    unfold SourceLeft
    decide +kernel
  have addressLeft : TargetLeft clientsMatch.featureMatches (clients.roleFeature ⟨0⟩) := by
    unfold TargetLeft
    decide +kernel
  exact ⟨matched, by decide +kernel, complete, photoLeft, addressLeft,
    complete.leftLocal _ (.inl (by decide)) _ (by decide) photoLeft addressLeft⟩

end ClassModel
