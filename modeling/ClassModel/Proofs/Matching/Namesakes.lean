import ClassModel.Proofs.Lists
import ClassModel.Proofs.Matching.Pairs
import ClassModel.Proofs.Matching.Types
import Mathlib.Data.List.Find
import Mathlib.Data.List.Pairwise

/-! Namesakes of the same type, in whatever order they are declared.

Where the names of features and their paths are all different, a source has one namesake at most, and
that is the namesake of nobody else. So whoever comes first takes no partner from another, and a pass by
name pairs everybody with the partner that it would have without the others. The stages that follow
find no such pairs any more.
-/

set_option autoImplicit false

namespace ClassModel

/-- Features no two of which have the same name, up to case, or the same path. -/
structure ToldApart (features : List Feature) : Prop where
  names : features.Pairwise fun first second =>
    ¬ Text.sameIgnoringAsciiCase first.name second.name
  paths : (features.map Feature.path).Nodup

theorem symm_differentNames : Std.Symm fun first second : Feature =>
    ¬ Text.sameIgnoringAsciiCase first.name second.name :=
  ⟨fun _ _ different alike => different (Text.sameIgnoringAsciiCase_comm .. ▸ alike)⟩

namespace ToldApart

variable {features others : List Feature} (apart : ToldApart features) {first second : Feature}

include apart

theorem eq_of_path (firstIn : first ∈ features) (secondIn : second ∈ features)
    (same : first.path = second.path) : first = second :=
  List.inj_on_of_nodup_map apart.paths firstIn secondIn same

theorem eq_of_name (firstIn : first ∈ features) (secondIn : second ∈ features)
    (same : Text.sameIgnoringAsciiCase first.name second.name) : first = second := by
  have symmetric := symm_differentNames
  by_contra different
  exact apart.names.forall firstIn secondIn different same

theorem perm (reordered : others.Perm features) : ToldApart others where
  names := (reordered.pairwise_iff (symm_differentNames.symm _ _)).mpr apart.names
  paths := (reordered.map Feature.path).nodup_iff.mpr apart.paths

end ToldApart

/-! ## A pass by name -/

namespace Comparison

variable (comparison : Comparison)

/-- The pair that a pass by name finds for a source when nothing is paired yet. -/
def firstChoice? (targets : List Feature) (source : Feature) : Option FeatureMatch :=
  (targets.find? (comparison.isExactPartner {} source)).map fun target =>
    ⟨source, target, .exactNameType, 1.0⟩

variable {comparison} {sources targets : List Feature}

theorem isExactPartner_empty_iff {source target : Feature} :
    comparison.isExactPartner {} source target = true ↔
      Text.sameIgnoringAsciiCase source.name target.name ∧
        comparison.typeMatch source.type target.type = .exact := by
  simp [isExactPartner, isNamesake, Pairing.targetFree]

theorem isExactPartner_eq (pairing : Pairing) (source target : Feature) :
    comparison.isExactPartner pairing source target =
      (pairing.targetFree target && comparison.isExactPartner {} source target) := by
  simp [isExactPartner, isNamesake, Pairing.targetFree, Bool.and_assoc]

theorem firstChoice?_eq_some {source : Feature} {pair : FeatureMatch}
    (chosen : comparison.firstChoice? targets source = some pair) :
    pair.source = source ∧ pair.target ∈ targets ∧
      comparison.isExactPartner {} source pair.target = true := by
  obtain ⟨target, found, rfl⟩ := Option.map_eq_some_iff.mp chosen
  exact ⟨rfl, List.mem_of_find?_eq_some found, List.find?_some found⟩

theorem firstChoice?_of_partner (apart : ToldApart targets) {source target : Feature}
    (listed : target ∈ targets) (partner : comparison.isExactPartner {} source target = true) :
    comparison.firstChoice? targets source = some ⟨source, target, .exactNameType, 1.0⟩ := by
  obtain ⟨found, first⟩ := Option.isSome_iff_exists.mp
    (List.find?_isSome.mpr ⟨target, listed, partner⟩)
  have name := (isExactPartner_empty_iff.mp partner).1
  have foundName := (isExactPartner_empty_iff.mp (List.find?_some first)).1
  have same : Text.sameIgnoringAsciiCase found.name target.name := by
    rw [Text.sameIgnoringAsciiCase_iff] at foundName name ⊢
    exact foundName.symm.trans name
  rw [firstChoice?, first, apart.eq_of_name (List.mem_of_find?_eq_some first) listed same]
  rfl

theorem of_mem_firstChoices {pair : FeatureMatch}
    (member : pair ∈ sources.filterMap (comparison.firstChoice? targets)) :
    pair.source ∈ sources ∧ pair.target ∈ targets ∧
      comparison.isExactPartner {} pair.source pair.target = true := by
  obtain ⟨source, listed, chosen⟩ := List.mem_filterMap.mp member
  obtain ⟨rfl, target, partner⟩ := firstChoice?_eq_some chosen
  exact ⟨listed, target, partner⟩

section

variable {done rest : List Feature} {source : Feature}
  (sourcesApart : ToldApart (done ++ source :: rest)) (targetsApart : ToldApart targets)

include sourcesApart

theorem sourceLeft_firstChoices :
    SourceLeft (done.filterMap (comparison.firstChoice? targets)) source := by
  have once := sourcesApart.paths
  rw [List.map_append, List.nodup_append] at once
  intro pair member
  exact once.2.2 _ (List.mem_map_of_mem (of_mem_firstChoices member).1) _ List.mem_cons_self

include targetsApart

-- A partner that is taken is the partner of somebody before, who has the same name then.
theorem targetLeft_firstChoices {target : Feature} (listed : target ∈ targets)
    (partner : comparison.isExactPartner {} source target = true) :
    TargetLeft (done.filterMap (comparison.firstChoice? targets)) target := by
  intro pair member samePath
  obtain ⟨before, there, taken⟩ := of_mem_firstChoices member
  rw [targetsApart.eq_of_path there listed samePath] at taken
  have different := sourcesApart.names
  rw [List.pairwise_append] at different
  refine different.2.2 pair.source before source List.mem_cons_self ?_
  have name := (isExactPartner_empty_iff.mp partner).1
  have takenName := (isExactPartner_empty_iff.mp taken).1
  rw [Text.sameIgnoringAsciiCase_iff] at takenName name ⊢
  exact takenName.trans name.symm

theorem find?_isExactPartner : targets.find? (comparison.isExactPartner
      ⟨done.filterMap (comparison.firstChoice? targets)⟩ source) =
    targets.find? (comparison.isExactPartner {} source) := by
  refine List.find?_congr fun target listed => ?_
  rw [isExactPartner_eq]
  cases partner : comparison.isExactPartner {} source target with
  | false => exact Bool.and_false _
  | true =>
    have left := targetLeft_firstChoices sourcesApart targetsApart listed partner
    rw [(Pairing.targetFree_iff _ target).mpr left, Bool.and_true]

end

/-- A pass by name over features that are told apart pairs everybody with the first choice. -/
theorem runPass_exactName (sourcesApart : ToldApart sources) (targetsApart : ToldApart targets) :
    (comparison.runPass .exactName sources targets {}).value =
      ⟨sources.filterMap (comparison.firstChoice? targets)⟩ := by
  unfold runPass
  rw [Noted.value_foldlM]
  refine foldl_of_split (motive := fun done (pairing : Pairing) =>
    pairing = ⟨done.filterMap (comparison.firstChoice? targets)⟩) rfl ?_
  rintro done source rest _ rfl rfl
  have left : SourceLeft (done.filterMap (comparison.firstChoice? targets)) source :=
    sourceLeft_firstChoices sourcesApart
  rw [comparison.value_pairSource, if_pos ((Pairing.sourceFree_iff _ source).mpr left), choose,
    find?_isExactPartner sourcesApart targetsApart, List.filterMap_append]
  cases first : targets.find? (comparison.isExactPartner {} source) <;>
    simp [firstChoice?, first, Pairing.add, Pass.kind]

end Comparison

/-! ## All stages -/

namespace Engine

variable (engine : Engine) (mapping : Mapping) (source target : EntityId)

theorem mem_runStages_of_mem_runPass {pairing : Pairing} {pair : FeatureMatch}
    (member : pair ∈ ((engine.comparison mapping).runPass .exactName
      (engine.model.localFeatures source) (engine.model.localFeatures target) pairing).value.found) :
    pair ∈ (runStages (engine.comparison mapping)
      (engine.stages mapping source target) pairing).value.found := by
  have split : engine.stages mapping source target =
      ⟨.exactName, engine.model.localFeatures source, engine.model.localFeatures target⟩ ::
        (engine.stages mapping source target).tail := rfl
  rw [split, value_runStages_cons]
  exact (grows_runStages _ _ _).kept pair member

/-- The stages that look for an equal type for local sources. -/
def localExactStages : List Stage :=
  let sources := engine.model.localFeatures source
  [⟨.byType .exact .exactType, sources, engine.model.localFeatures target⟩,
    ⟨.byType .exact .composedType, sources, engine.model.nonlocalFeatures target⟩]

-- What these stages find is found by type, and they leave no own feature and one of the same type to
-- the stages after them.
theorem mem_runPass_of_mem_runStages {pairing : Pairing} {pair : FeatureMatch}
    (member : pair ∈ (runStages (engine.comparison mapping)
      (engine.stages mapping source target) pairing).value.found)
    (kind : pair.kind = .exactNameType) (own : pair.source ∈ engine.model.localFeatures source) :
    pair ∈ ((engine.comparison mapping).runPass .exactName (engine.model.localFeatures source)
      (engine.model.localFeatures target) pairing).value.found := by
  let comparison := engine.comparison mapping
  let byType := engine.localExactStages source target
  let later := (engine.stages mapping source target).drop 3
  have split : engine.stages mapping source target =
      ⟨.exactName, engine.model.localFeatures source, engine.model.localFeatures target⟩ ::
        (byType ++ later) := rfl
  rw [split, value_runStages_cons, value_runStages_append] at member
  generalize (comparison.runPass _ _ _ pairing).value = byName at member ⊢
  rcases (grows_runStages comparison later _).mem_beyond member with
    before | ⟨⟨stage, listed, allowed⟩, sourceLeft, targetLeft⟩
  · rcases (grows_runStages comparison byType byName).mem pair before with
      first | ⟨stage, listed, allowed⟩
    · exact first
    · have other := kind.symm.trans allowed.kind
      simp only [byType, localExactStages, List.mem_cons, List.not_mem_nil, or_false] at listed
      rcases listed with rfl | rfl <;> cases other
  · have among : stage ∈ engine.stages mapping source target := List.mem_of_mem_drop listed
    have types : comparison.typeMatch pair.source.type pair.target.type = .exact := by
      rw [allowed.types, ← engine.stages_wanted mapping source target among, ← allowed.kind, kind]
      rfl
    have feature := engine.isFeatureOf_of_mem_targets mapping source target among allowed.target
    exact absurd types (engine.settled_localSources source target (by simp [byType, localExactStages])
      (by simp [byType, localExactStages]) own feature sourceLeft targetLeft)

/-- The pairs found by name whose source is an own feature, each as its two features. -/
def exactNamePairs : Set (Feature × Feature) :=
  { ends | ends.1 ∈ engine.model.localFeatures source ∧ ∃ found pair,
      (engine.pairSimilarity mapping source target).value = some found ∧
      pair ∈ found.featureMatches ∧ pair.kind = .exactNameType ∧ (pair.source, pair.target) = ends }

/-- An own feature of each side, with the same name, up to case, and the same type. -/
def namesakes : Set (Feature × Feature) :=
  { ends | ends.1 ∈ engine.model.localFeatures source ∧
      ends.2 ∈ engine.model.localFeatures target ∧
      Text.sameIgnoringAsciiCase ends.1.name ends.2.name ∧
      (engine.comparison mapping).typeMatch ends.1.type ends.2.type = .exact }

variable {engine source target}

theorem exactNamePairs_eq_namesakes
    (sourceApart : ToldApart (engine.model.localFeatures source))
    (targetApart : ToldApart (engine.model.localFeatures target)) :
    engine.exactNamePairs .empty source target = engine.namesakes .empty source target := by
  have byName := @Comparison.runPass_exactName (engine.comparison .empty) _ _ sourceApart targetApart
  ext ⟨first, second⟩
  constructor
  · rintro ⟨own, found, pair, matched, member, kind, same⟩
    obtain ⟨rfl, rfl⟩ := Prod.mk.inj same
    rw [value_pairSimilarity_empty] at matched
    obtain rfl := Option.some.inj matched
    have early := mem_runPass_of_mem_runStages engine .empty source target member kind own
    rw [byName] at early
    obtain ⟨_, listed, partner⟩ := Comparison.of_mem_firstChoices early
    exact ⟨own, listed, Comparison.isExactPartner_empty_iff.mp partner⟩
  · rintro ⟨own, listed, partner⟩
    have chosen := Comparison.firstChoice?_of_partner targetApart listed
      (Comparison.isExactPartner_empty_iff.mpr partner)
    refine ⟨own, _, ⟨first, second, .exactNameType, 1.0⟩, value_pairSimilarity_empty .., ?_, rfl, rfl⟩
    refine mem_runStages_of_mem_runPass engine .empty source target ?_
    rw [byName]
    exact List.mem_filterMap.mpr ⟨first, own, chosen⟩

end Engine

/-! ## Other orders -/

/-- Two models with the same attributes and associations that list those of an entity in any order. -/
structure Model.Reorders (first second : Model) (id : EntityId) : Prop where
  sameAttributes : second.attributes = first.attributes
  sameAssociations : second.associations = first.associations
  attributes : (second.entityAt id).attributes.Perm (first.entityAt id).attributes
  associations : (second.entityAt id).associations.Perm (first.entityAt id).associations

theorem Model.Reorders.localFeatures {first second : Model} {id : EntityId}
    (reordered : first.Reorders second id) :
    (second.localFeatures id).Perm (first.localFeatures id) := by
  have declared : second.attributeFeature = first.attributeFeature := by
    funext listed
    simp only [attributeFeature, attributeAt, reordered.sameAttributes]
  have ended : second.roleFeature = first.roleFeature := by
    funext listed
    simp only [roleFeature, associationAt, reordered.sameAssociations]
  unfold Model.localFeatures
  rw [declared, ended]
  exact (reordered.attributes.map _).append (reordered.associations.map _)

namespace Engine

variable {engine : Engine} {source target : EntityId}

-- Whether types are the same is not a matter of the model.
theorem namesakes_reordered {reordered : Model}
    (atSource : engine.model.Reorders reordered source)
    (atTarget : engine.model.Reorders reordered target) :
    { engine with model := reordered }.namesakes .empty source target =
      engine.namesakes .empty source target := by
  ext ⟨first, second⟩
  refine and_congr atSource.localFeatures.mem_iff (and_congr atTarget.localFeatures.mem_iff
    (and_congr_right' ?_))
  rw [Comparison.typeMatch_eq_exact_iff, Comparison.typeMatch_eq_exact_iff, Comparison.agrees_iff,
    Comparison.agrees_iff]
  rfl

/-- Two entities whose own features are told apart, matched on an empty mapping: the pairs found by name
for own features of the first are all pairs of namesakes of the same type among own features, and so
they are the same pairs when the features are listed in another order. -/
theorem exactNamePairs_reordered
    (sourceApart : ToldApart (engine.model.localFeatures source))
    (targetApart : ToldApart (engine.model.localFeatures target)) :
    (∃ found, (engine.pairSimilarity .empty source target).value = some found) ∧
    engine.exactNamePairs .empty source target = engine.namesakes .empty source target ∧
    ∀ reordered, engine.model.Reorders reordered source →
      engine.model.Reorders reordered target →
      { engine with model := reordered }.exactNamePairs .empty source target =
        engine.exactNamePairs .empty source target := by
  refine ⟨⟨_, value_pairSimilarity_empty ..⟩, exactNamePairs_eq_namesakes sourceApart targetApart, ?_⟩
  intro reordered atSource atTarget
  have reorderedPairs := @exactNamePairs_eq_namesakes { engine with model := reordered } _ _
    (sourceApart.perm atSource.localFeatures) (targetApart.perm atTarget.localFeatures)
  rw [reorderedPairs, namesakes_reordered atSource atTarget,
    exactNamePairs_eq_namesakes sourceApart targetApart]

end Engine

/-- A reader and a member with three features of the same names each, one of them of another type. -/
def readers : Model :=
  [Edit.insertEntity (.named "Reader"), .insertEntity (.named "Member"),
    .insertEntity (.named "Book"),
    .attachAttribute ⟨0⟩ { name := "name", type := .primitive "String", owner := ⟨0⟩ },
    .attachAttribute ⟨0⟩ { name := "since", type := .primitive "Date", owner := ⟨0⟩ },
    .attachAttribute ⟨1⟩ { name := "Since", type := .primitive "int", owner := ⟨1⟩ },
    .attachAttribute ⟨1⟩ { name := "NAME", type := .primitive "String", owner := ⟨1⟩ },
    .addAssociation { entity1 := ⟨0⟩, entity2 := ⟨2⟩, role2 := "loans", card2 := .many },
    .addAssociation { entity1 := ⟨1⟩, entity2 := ⟨2⟩, role2 := "Loans", card2 := .many }].foldl
    Edit.apply .empty

/-- The readers with the attributes of both entities the other way round. -/
def readersReversed : Model :=
  let reversed := fun entity : Entity => { entity with attributes := entity.attributes.reverse }
  (readers.modifyEntity ⟨0⟩ reversed).modifyEntity ⟨1⟩ reversed

def matchReaders : Engine := { model := readers, known := readers.entityIds }

/-- The names of the readers are paired and the dates that differ in type are not, in either order. -/
theorem exactNamePairs_readers :
    ToldApart (readers.localFeatures ⟨0⟩) ∧ ToldApart (readers.localFeatures ⟨1⟩) ∧
      readers.Reorders readersReversed ⟨0⟩ ∧ readers.Reorders readersReversed ⟨1⟩ ∧
      (readers.attributeFeature ⟨0⟩, readers.attributeFeature ⟨3⟩) ∈
        matchReaders.exactNamePairs .empty ⟨0⟩ ⟨1⟩ ∧
      (readers.attributeFeature ⟨1⟩, readers.attributeFeature ⟨2⟩) ∉
        matchReaders.exactNamePairs .empty ⟨0⟩ ⟨1⟩ ∧
      { matchReaders with model := readersReversed }.exactNamePairs .empty ⟨0⟩ ⟨1⟩ =
        matchReaders.exactNamePairs .empty ⟨0⟩ ⟨1⟩ := by
  have source : ToldApart (readers.localFeatures ⟨0⟩) := ⟨by decide, by decide⟩
  have target : ToldApart (readers.localFeatures ⟨1⟩) := ⟨by decide, by decide⟩
  have atSource : readers.Reorders readersReversed ⟨0⟩ := ⟨rfl, rfl, by decide, by decide⟩
  have atTarget : readers.Reorders readersReversed ⟨1⟩ := ⟨rfl, rfl, by decide, by decide⟩
  obtain ⟨_, pairs, sameReordered⟩ := @Engine.exactNamePairs_reordered matchReaders _ _ source target
  refine ⟨source, target, atSource, atTarget, ?_, ?_, sameReordered _ atSource atTarget⟩
  · rw [pairs]
    exact ⟨by decide, by decide, by decide, by decide⟩
  · rw [pairs]
    exact fun alike => absurd alike.2.2.2 (by decide)

end ClassModel
