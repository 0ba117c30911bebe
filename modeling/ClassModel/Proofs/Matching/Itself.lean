import ClassModel.Proofs.Inheritance.Order
import ClassModel.Proofs.Matching.Pairs
import ClassModel.Proofs.Matching.Types
import ClassModel.Proofs.Model.FeatureLists
import ClassModel.Proofs.Model.References

/-! An entity matched with itself.

Own features take their turns in the order in which they are looked at. When it is the turn of one,
exactly those before it are taken, so the first namesake that is left is the feature itself. After that
no own feature is left on either side, and only features two steps away can still be paired.
-/

set_option autoImplicit false

namespace ClassModel

/-! ## Own features -/

/-- A feature paired with itself. -/
def FeatureMatch.itself (feature : Feature) : FeatureMatch := ⟨feature, feature, .exactNameType, 1.0⟩

namespace Model

variable {model : Model} {id : EntityId}

/-- Every attribute that an entity lists stands for itself, and not for a path. -/
def ListsDeclared (model : Model) (id : EntityId) : Prop :=
  ∀ listed ∈ (model.entityAt id).attributes, (model.attributeAt listed).path = none

instance (model : Model) (id : EntityId) : Decidable (model.ListsDeclared id) :=
  inferInstanceAs (Decidable (∀ listed ∈ (model.entityAt id).attributes, _))

theorem map_path_localFeatures (declared : model.ListsDeclared id) :
    (model.localFeatures id).map Feature.path =
      (model.entityAt id).attributes.map (fun listed => [.attribute listed]) ++
        (model.entityAt id).associations.map fun role => [.role role] := by
  unfold localFeatures
  rw [List.map_append, List.map_map, List.map_map]
  congr 1
  refine List.map_congr_left fun listed member => ?_
  simp [attributeFeature, declared listed member]

theorem ListsApart.nodup_localPaths (sound : ListsApart model) (declared : model.ListsDeclared id) :
    ((model.localFeatures id).map Feature.path).Nodup := by
  have attributes : (model.entityAt id).attributes.Nodup := (sound.once .attributes id).of_map
  have associations : (model.entityAt id).associations.Nodup := (sound.once .associations id).of_map
  rw [map_path_localFeatures declared, List.nodup_append]
  refine ⟨attributes.map fun first second same => ?_, associations.map fun first second same => ?_,
    ?_⟩
  · simpa using same
  · simpa using same
  · intro path listed other role same
    obtain ⟨_, _, rfl⟩ := List.mem_map.mp listed
    obtain ⟨_, _, rfl⟩ := List.mem_map.mp role
    cases same

end Model

/-! ## One pass -/

namespace Comparison

variable {comparison : Comparison}

-- The targets before it are taken, so a source comes to itself first.
theorem choose_itself {pairing : Pairing} {feature : Feature} (done rest : List Feature)
    (taken : ∀ earlier ∈ done, ¬ TargetLeft pairing.found earlier)
    (left : TargetLeft pairing.found feature)
    (alike : comparison.typeMatch feature.type feature.type = .exact) :
    comparison.choose .exactName pairing (done ++ feature :: rest) feature =
      some ⟨feature, 1.0⟩ := by
  have skipped : done.find? (comparison.isExactPartner pairing feature) = none := by
    refine List.find?_eq_none.mpr fun earlier member => ?_
    have gone : pairing.targetFree earlier = false :=
      Bool.eq_false_iff.mpr fun free => taken earlier member ((pairing.targetFree_iff earlier).mp free)
    simp [isExactPartner, isNamesake, gone]
  have found : comparison.isExactPartner pairing feature feature = true := by
    simp [isExactPartner, isNamesake, (pairing.targetFree_iff feature).mpr left, alike,
      Text.sameIgnoringAsciiCase]
  simp [choose, List.find?_append, skipped, found]

/-- A pass by name over one list of features pairs each with itself, in their order. -/
theorem runPass_itself {features : List Feature} (once : (features.map Feature.path).Nodup)
    (alike : ∀ feature ∈ features, comparison.typeMatch feature.type feature.type = .exact) :
    (comparison.runPass .exactName features features {}).value =
      ⟨features.map FeatureMatch.itself⟩ := by
  unfold runPass
  rw [Noted.value_foldlM]
  refine foldl_of_split
    (motive := fun done (pairing : Pairing) => pairing = ⟨done.map FeatureMatch.itself⟩) rfl ?_
  rintro done feature rest pairing split rfl
  have apart : ∀ earlier ∈ done, earlier.path ≠ feature.path := by
    rw [split, List.map_append, List.nodup_append] at once
    exact fun earlier member => once.2.2 _ (List.mem_map_of_mem member) _ List.mem_cons_self
  have sourceLeft : SourceLeft (done.map FeatureMatch.itself) feature := by
    simpa [SourceLeft, FeatureMatch.itself] using apart
  have targetLeft : TargetLeft (done.map FeatureMatch.itself) feature := by
    simpa [TargetLeft, FeatureMatch.itself] using apart
  have taken : ∀ earlier ∈ done, ¬ TargetLeft (done.map FeatureMatch.itself) earlier :=
    fun earlier member left => left _ (List.mem_map_of_mem member) rfl
  have chosen := choose_itself done rest taken targetLeft (alike feature (by simp [split]))
  rw [comparison.value_pairSource, if_pos ((Pairing.sourceFree_iff _ feature).mpr sourceLeft), split,
    chosen]
  simp [Pairing.add, FeatureMatch.itself, Pass.kind]

end Comparison

/-! ## All passes -/

namespace Engine

variable (engine : Engine) {mapping : Mapping} {source target id : EntityId} {stage : Stage}

-- One stage only has own features neither on its left nor on its right.
theorem composed_of_stages (listed : stage ∈ engine.stages mapping source target)
    (sources : stage.sources ≠ engine.model.localFeatures source)
    (targets : stage.targets ≠ engine.model.localFeatures target) :
    stage.pass.kind = .composedType ∧ stage.sources = engine.model.nonlocalFeatures source ∧
      stage.targets = engine.model.nonlocalFeatures target := by
  simp only [stages, List.mem_cons, List.not_mem_nil, or_false] at listed
  rcases listed with rfl | rfl | rfl | rfl | rfl | rfl | rfl | rfl | rfl | rfl | rfl <;>
    first | exact absurd rfl sources | exact absurd rfl targets | exact ⟨rfl, rfl, rfl⟩

/-- An entity none of whose attributes stands for a path, matched with itself on an empty mapping: each
of its own features is paired with itself, in their order, and whatever is paired beyond that are two
features that are two steps away. -/
theorem pairSimilarity_itself (reachable : engine.model.Reachable)
    (declared : engine.model.ListsDeclared id)
    (known : ∀ feature ∈ engine.model.localFeatures id, ∀ referred ∈ feature.type.leaf?,
      referred ∈ engine.known) :
    ∃ found further, (engine.pairSimilarity .empty id id).value = some found ∧
      found.source = id ∧ found.target = id ∧
      found.featureMatches =
        (engine.model.localFeatures id).map
          (fun feature => ⟨feature, feature, .exactNameType, 1.0⟩) ++ further ∧
      ∀ pair ∈ further, pair.kind = .composedType ∧
        pair.source ∈ engine.model.nonlocalFeatures id ∧
        pair.target ∈ engine.model.nonlocalFeatures id := by
  let own := engine.model.localFeatures id
  let comparison := engine.comparison .empty
  let later := (engine.stages .empty id id).tail
  have once : (own.map Feature.path).Nodup := reachable.listsApart.nodup_localPaths declared
  have first : (comparison.runPass .exactName own own {}).value = ⟨own.map FeatureMatch.itself⟩ :=
    Comparison.runPass_itself once fun feature member =>
      Comparison.typeMatch_self (known feature member)
  have stages : engine.stages .empty id id = ⟨.exactName, own, own⟩ :: later := rfl
  obtain ⟨further, found, beyond⟩ := (grows_runStages comparison later
    ⟨own.map FeatureMatch.itself⟩).beyond
  refine ⟨(engine.scorePair .empty id id {}).value, further, ?_, rfl, rfl, ?_, ?_⟩
  · rw [value_pairSimilarity, breaksHierarchy_empty, inheritedMatches_empty]
    rfl
  · rw [featureMatches_scorePair, stages, value_runStages_cons, first]
    exact found
  · intro pair added
    obtain ⟨⟨stage, listed, allowed⟩, sourceLeft, targetLeft⟩ := beyond pair added
    -- What a stage pairs is left, and no own feature is.
    have sources : stage.sources ≠ own := fun pool =>
      sourceLeft _ (List.mem_map_of_mem (pool ▸ allowed.source)) rfl
    have targets : stage.targets ≠ own := fun pool =>
      targetLeft _ (List.mem_map_of_mem (pool ▸ allowed.target)) rfl
    obtain ⟨kind, sourcePool, targetPool⟩ :=
      engine.composed_of_stages (List.mem_of_mem_tail listed) sources targets
    exact ⟨allowed.kind.trans kind, sourcePool ▸ allowed.source, targetPool ▸ allowed.target⟩

end Engine

/-- A person with two names that differ in case, a set of friends and an employer, which has a name
and a seat. -/
def staff : Model :=
  [Edit.insertEntity (.named "Person"), .insertEntity (.named "Firm"),
    .attachAttribute ⟨0⟩ { name := "name", type := .primitive "String", owner := ⟨0⟩ },
    .attachAttribute ⟨0⟩ { name := "Name", type := .primitive "String", owner := ⟨0⟩ },
    .attachAttribute ⟨1⟩ { name := "name", type := .primitive "String", owner := ⟨1⟩ },
    .attachAttribute ⟨1⟩ { name := "seat", type := .primitive "String", owner := ⟨1⟩ },
    .addAssociation { entity1 := ⟨0⟩, entity2 := ⟨0⟩, role2 := "friends", card2 := .many },
    .addAssociation { entity1 := ⟨0⟩, entity2 := ⟨1⟩, role2 := "employer" }].foldl Edit.apply .empty

def matchStaff : Engine := { model := staff, known := staff.entityIds }

theorem pairSimilarity_itself_staff :
    staff.Reachable ∧ staff.ListsDeclared ⟨0⟩ ∧
      (∀ feature ∈ staff.localFeatures ⟨0⟩, ∀ referred ∈ feature.type.leaf?,
        referred ∈ matchStaff.known) ∧
      (staff.localFeatures ⟨0⟩).map Feature.name = ["name", "Name", "friends", "employer"] ∧
      ∃ found further, (matchStaff.pairSimilarity .empty ⟨0⟩ ⟨0⟩).value = some found ∧
        found.source = ⟨0⟩ ∧ found.target = ⟨0⟩ ∧
        found.featureMatches =
          (staff.localFeatures ⟨0⟩).map
            (fun feature => ⟨feature, feature, .exactNameType, 1.0⟩) ++ further ∧
        ∀ pair ∈ further, pair.kind = .composedType ∧
          pair.source ∈ staff.nonlocalFeatures ⟨0⟩ ∧ pair.target ∈ staff.nonlocalFeatures ⟨0⟩ := by
  have reachable : staff.Reachable := Model.Reachable.empty.of_leads (Model.EditsFit.leads (by decide))
  have declared : staff.ListsDeclared ⟨0⟩ := by decide
  have known : ∀ feature ∈ staff.localFeatures ⟨0⟩, ∀ referred ∈ feature.type.leaf?,
      referred ∈ matchStaff.known := by decide
  exact ⟨reachable, declared, known, by decide,
    matchStaff.pairSimilarity_itself reachable declared known⟩

end ClassModel
