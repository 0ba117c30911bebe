import ClassModel.Proofs.Matching.Pairs
import ClassModel.Proofs.Naming.Ratings

/-! The scores of pairs and of correspondences.

A pair that is taken over or has one name counts as one; any other has the similarity of its names or
half of it. So the score of a correspondence is not a number just when the thesaurus leaves the
similarity of such a pair undefined, and is not below zero otherwise.
-/

set_option autoImplicit false

namespace ClassModel

open Decimal

/-! ## Sums -/

theorem Fuzzy.nonneg_sum {scores : List Float} (each : ∀ score ∈ scores, Nonneg score) :
    Nonneg (Fuzzy.sum scores) :=
  List.foldlRecOn (motive := Nonneg) scores _ (NotBelowZero.zero .negative)
    fun _ soFar score member => soFar.add (each score member)

theorem Fuzzy.isNaN_sum {scores : List Float} {score : Float} (member : score ∈ scores)
    (undefined : score.isNaN = true) : (Fuzzy.sum scores).isNaN = true := by
  obtain ⟨before, after, rfl⟩ := List.append_of_mem member
  rw [Fuzzy.sum, List.foldl_append, List.foldl_cons]
  exact List.foldlRecOn (motive := fun total : Float => total.isNaN = true) after _
    (isNaN_add_right undefined) fun _ soFar _ _ => isNaN_add_left soFar

/-! ## Pairs of features -/

/-- Whether pairs of this kind are scored by the similarity of their names. -/
def MatchKind.bySimilarity : MatchKind → Bool
  | .inherited | .exactNameType => false
  | .exactType | .composedType | .partialType => true

namespace FeatureMatch

/-- The similarity that the pair is scored by is not a number. -/
def Undefined (thesaurus : Naming.Thesaurus) (pair : FeatureMatch) : Prop :=
  pair.kind.bySimilarity = true ∧ thesaurus.Undefined pair.source.name pair.target.name

structure Scored (thesaurus : Naming.Thesaurus) (pair : FeatureMatch) : Prop where
  undefined : pair.Undefined thesaurus → pair.score.isNaN = true
  defined : ¬ pair.Undefined thesaurus → Nonneg pair.score

theorem Scored.ofOne {thesaurus : Naming.Thesaurus} {pair : FeatureMatch}
    (certain : pair.kind.bySimilarity = false) (one : pair.score = 1.0) : pair.Scored thesaurus where
  undefined := fun undefined => absurd (certain.symm.trans undefined.1) nofun
  defined := fun _ => one ▸ denotes_one.toNonneg

end FeatureMatch

theorem positiveFinite_typeFactor (wanted : TypeMatch) :
    PositiveFinite (Comparison.typeFactor wanted) := by
  unfold Comparison.typeFactor
  split
  · exact ⟨_, _, _, rfl⟩
  · exact ⟨_, _, _, rfl⟩

theorem Stage.Offers.scored {stage : Stage} {comparison : Comparison} {pair : FeatureMatch}
    (bounded : comparison.thesaurus.Bounded)
    (kinds : stage.pass.kind.bySimilarity = (stage.pass != .exactName))
    (offered : stage.Offers comparison pair) : pair.Scored comparison.thesaurus := by
  obtain ⟨pass, sources, targets⟩ := stage
  obtain ⟨listed, chosen⟩ := offered
  cases pass with
  | exactName =>
    obtain ⟨target, -, rfl⟩ := Option.map_eq_some_iff.mp chosen
    exact .ofOne rfl rfl
  | byType wanted kind =>
    have similar : kind.bySimilarity = true := kinds
    obtain ⟨target, -, rfl⟩ := List.mem_map.mp (Candidate.mem_of_best? chosen)
    constructor
    · intro undefined
      exact isNaN_mul_left (Naming.isNaN_nameSimilarity undefined.2)
    · intro defined
      refine (Naming.nonneg_nameSimilarity bounded fun undefined => ?_).mul
        (positiveFinite_typeFactor wanted)
      exact defined ⟨similar, undefined⟩

/-! ## Correspondences -/

/-- The score is the sum of the scores of the pairs, each scored as its kind says. -/
structure EntityMatch.Scored (thesaurus : Naming.Thesaurus) (entry : EntityMatch) : Prop where
  pairs : ∀ pair ∈ entry.featureMatches, pair.Scored thesaurus
  total : entry.score = Fuzzy.sum (entry.featureMatches.map FeatureMatch.score)

namespace EntityMatch.Scored

variable {thesaurus : Naming.Thesaurus} {entry : EntityMatch}

theorem nonneg (scored : entry.Scored thesaurus)
    (defined : ¬ ∃ pair ∈ entry.featureMatches, pair.Undefined thesaurus) :
    Nonneg entry.score := by
  rw [scored.total]
  refine Fuzzy.nonneg_sum (List.forall_mem_map.mpr fun pair member => ?_)
  exact (scored.pairs pair member).defined fun undefined => defined ⟨pair, member, undefined⟩

theorem isNaN_iff (scored : entry.Scored thesaurus) :
    entry.score.isNaN = true ↔ ∃ pair ∈ entry.featureMatches, pair.Undefined thesaurus := by
  constructor
  · intro notNumber
    by_contra defined
    exact Bool.ne_false_iff.mpr notNumber (scored.nonneg defined).isNaN_eq_false
  · rintro ⟨pair, member, undefined⟩
    rw [scored.total]
    exact Fuzzy.isNaN_sum (List.mem_map_of_mem member)
      ((scored.pairs pair member).undefined undefined)

theorem zero_le (scored : entry.Scored thesaurus) (number : entry.score.isNaN = false) :
    0.0 ≤ entry.score := by
  refine (scored.nonneg fun undefined => ?_).zero_le
  exact Bool.ne_false_iff.mpr (scored.isNaN_iff.mpr undefined) number

end EntityMatch.Scored

namespace Engine

variable (engine : Engine) (mapping : Mapping) (source target : EntityId)

theorem stages_bySimilarity {stage : Stage}
    (listed : stage ∈ engine.stages mapping source target) :
    stage.pass.kind.bySimilarity = (stage.pass != .exactName) := by
  simp only [stages, List.mem_cons, List.not_mem_nil, or_false] at listed
  rcases listed with rfl | rfl | rfl | rfl | rfl | rfl | rfl | rfl | rfl | rfl | rfl <;> rfl

theorem pairSimilarity_scored (bounded : engine.thesaurus.Bounded) {found : EntityMatch}
    (matched : (engine.pairSimilarity mapping source target).value = some found) :
    found.Scored engine.thesaurus := by
  obtain ⟨_, rfl⟩ := engine.pairSimilarity_eq_some mapping source target matched
  have grown := offers_runStages (engine.comparison mapping)
    (engine.stages mapping source target) ⟨engine.inheritedMatches mapping source⟩
  refine ⟨fun pair member => ?_, rfl⟩
  rcases grown.mem pair member with takenOver | ⟨stage, listed, offered⟩
  · obtain ⟨_, rfl⟩ := engine.exists_of_mem_inheritedMatches mapping source takenOver
    exact .ofOne rfl rfl
  · exact offered.scored bounded (engine.stages_bySimilarity mapping source target listed)

end Engine

end ClassModel
