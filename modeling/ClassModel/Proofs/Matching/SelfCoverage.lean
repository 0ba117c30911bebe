import ClassModel.Matching.Engine
import ClassModel.Model.Script
import ClassModel.Proofs.Fuzzy
import ClassModel.Proofs.Matching.Types
import ClassModel.Proofs.Naming.Unaided

/-! How an entity covers itself.

Without a thesaurus every local feature matches itself with certainty, but rounding may take one step
off when similar features are combined with it. The coverage is one but for one step for each feature
that this happens to.
-/

set_option autoImplicit false

namespace ClassModel

open Fuzzy Decimal Naming

/-! ## Scores without a thesaurus -/

/-- All similarities of two features without a thesaurus: those of names, and half of them. -/
def unaidedScores : List Float := unaidedSimilarities ++ unaidedSimilarities.map (· / 2.0)

theorem unaidedScores_bounds : ∀ score ∈ unaidedScores,
    score = 0.0 ∨ 0.0 < score ∧ score ≤ 1.0 := by
  decide +kernel

theorem softOr_one_unaidedScores : ∀ score ∈ unaidedScores,
    softOr 1.0 score = 1.0 ∨ softOr 1.0 score = belowOne := by
  decide +kernel

theorem softOr_belowOne_unaidedScores : ∀ score ∈ unaidedScores,
    softOr belowOne score = 1.0 ∨ softOr belowOne score = belowOne := by
  decide +kernel

theorem degree_of_mem_unaidedScores {score : Float} (listed : score ∈ unaidedScores) :
    Degree score := by
  rcases unaidedScores_bounds score listed with rfl | ⟨positive, most⟩
  · exact degree_zero
  · exact degree_of_bounds positive most

theorem Comparison.featureSimilarity_mem_unaidedScores {comparison : Comparison}
    (unaided : comparison.thesaurus = .empty) (source target : Feature) :
    comparison.featureSimilarity source target ∈ unaidedScores := by
  have named : comparison.nameSimilarity source target ∈ unaidedSimilarities := by
    rw [nameSimilarity, unaided]
    exact nameSimilarity_empty _ _
  unfold featureSimilarity
  split
  · exact List.mem_append_left _ named
  · exact List.mem_append_right _ (List.mem_map_of_mem named)
  · exact List.mem_append_left _ List.mem_cons_self

theorem Comparison.featureSimilarity_self {comparison : Comparison}
    (unaided : comparison.thesaurus = .empty) {feature : Feature}
    (known : ∀ id ∈ feature.type.leaf?, id ∈ comparison.known) :
    comparison.featureSimilarity feature feature = 1.0 := by
  have same : Text.sameIgnoringAsciiCase feature.name feature.name = true := by
    rw [Text.sameIgnoringAsciiCase_iff]
  rw [featureSimilarity, typeMatch_self known]
  simp only [nameSimilarity, Naming.nameSimilarity, unaided, lookupEither_empty, same, if_true]

/-! ## One certain score among others -/

-- Up to the certain score any degree may have come about; it leaves one of two, and the rest keeps
-- to these two.
theorem almostOne_softOrAll {scores : List Float} (unaided : ∀ score ∈ scores, score ∈ unaidedScores)
    (certain : 1.0 ∈ scores) : AlmostOne (softOrAll scores) := by
  obtain ⟨before, after, rfl⟩ := List.append_of_mem certain
  obtain ⟨earlier, _, later⟩ := by
    simpa only [List.forall_mem_append, List.forall_mem_cons] using unaided
  have soFar : Degree (before.foldl softOr 0.0) :=
    degree_foldl_softOr (fun score member => degree_of_mem_unaidedScores (earlier score member))
      degree_zero
  rw [softOrAll, List.foldl_append, List.foldl_cons]
  refine List.foldlRecOn (motive := AlmostOne) after _ (softOr_one soFar) ?_
  rintro degree (rfl | rfl) score member
  · exact softOr_one_unaidedScores score (later score member)
  · exact softOr_belowOne_unaidedScores score (later score member)

/-- Between certain and impossible nothing is rounded. -/
theorem softOr_clear : ∀ degree ∈ [0.0, 1.0], ∀ score ∈ [0.0, 1.0],
    (softOr degree score = 0.0 ∨ softOr degree score = 1.0) ∧ softOr degree 1.0 = 1.0 ∧
      softOr 1.0 score = 1.0 := by
  decide +kernel

theorem softOrAll_eq_one {scores : List Float} (clear : ∀ score ∈ scores, score ∈ [0.0, 1.0])
    (certain : 1.0 ∈ scores) : softOrAll scores = 1.0 := by
  obtain ⟨before, after, rfl⟩ := List.append_of_mem certain
  obtain ⟨earlier, _, later⟩ := by
    simpa only [List.forall_mem_append, List.forall_mem_cons] using clear
  have soFar : before.foldl softOr 0.0 ∈ [0.0, 1.0] := by
    refine List.foldlRecOn (motive := fun degree => degree ∈ [0.0, 1.0]) before _
      List.mem_cons_self ?_
    intro degree soFar score member
    rcases (softOr_clear degree soFar score (earlier score member)).1 with none | one
    · simp [none]
    · simp [one]
  rw [softOrAll, List.foldl_append, List.foldl_cons, (softOr_clear _ soFar 1.0 (by simp)).2.1]
  refine List.foldlRecOn (motive := fun degree => degree = 1.0) after _ rfl ?_
  rintro degree rfl score member
  exact (softOr_clear 1.0 (by simp) score (later score member)).2.2

/-! ## Coverage -/

/-- What the degrees of all features say about the coverage: each is one or a step short of it, and
the coverage is as many steps short of one as there are short degrees. -/
structure CoversItself (degrees : List Float) (coverage : Float) : Prop where
  almost : ∀ degree ∈ degrees, AlmostOne degree
  whole : coverage = 1.0 ↔ shortOfOne degrees = 0
  short : shortOfOne degrees ≤ 2 ^ 52 →
    Denotes coverage (1 - shortOfOne degrees * stepBelowOne)

section

variable {features : List Feature} {score : Feature → Feature → Float}

theorem coversItself (unaided : ∀ feature other, score feature other ∈ unaidedScores)
    (certain : ∀ feature ∈ features, score feature feature = 1.0) :
    CoversItself (features.map fun feature => softOrAll (features.map (score feature)))
      (softAndAll (features.map fun feature => softOrAll (features.map (score feature)))) := by
  have almost : ∀ degree ∈ features.map fun feature => softOrAll (features.map (score feature)),
      AlmostOne degree := by
    rw [List.forall_mem_map]
    intro feature member
    refine almostOne_softOrAll ?_ (certain feature member ▸ List.mem_map_of_mem member)
    rw [List.forall_mem_map]
    exact fun other _ => unaided feature other
  exact ⟨almost, softAndAll_eq_one_iff almost, denotes_softAndAll almost⟩

theorem shortOfOne_eq_zero
    (clear : ∀ feature ∈ features, ∀ other ∈ features, score feature other ∈ [0.0, 1.0])
    (certain : ∀ feature ∈ features, score feature feature = 1.0) :
    shortOfOne (features.map fun feature => softOrAll (features.map (score feature))) = 0 := by
  rw [shortOfOne, List.countP_eq_zero, List.forall_mem_map]
  intro feature member
  have one : softOrAll (features.map (score feature)) = 1.0 := by
    refine softOrAll_eq_one ?_ (certain feature member ▸ List.mem_map_of_mem member)
    rw [List.forall_mem_map]
    exact clear feature member
  rw [one]
  simp [one_not_lt_one]

end

namespace Comparison

/-- How well each source feature is covered by the target features. -/
def sourceDegrees (comparison : Comparison) (sources targets : List Feature) : List Float :=
  sources.map fun source =>
    softOrAll (targets.map fun target => comparison.featureSimilarity source target)

/-- How well each target feature is covered by the source features. -/
def targetDegrees (comparison : Comparison) (sources targets : List Feature) : List Float :=
  targets.map fun target =>
    softOrAll (sources.map fun source => comparison.featureSimilarity source target)

end Comparison

namespace Engine

/-- Without a thesaurus and with all types of its features known, an entity covers itself but for one
step of rounding for each feature that similar ones are combined with so. The coverage is one when
no two of its features are similar in part. -/
theorem coverage_of_itself (engine : Engine) (mapping : Mapping) (id : EntityId)
    (unaided : engine.thesaurus = .empty)
    (known : ∀ feature ∈ engine.model.localFeatures id, ∀ referred ∈ feature.type.leaf?,
      referred ∈ engine.known) :
    let features := engine.model.localFeatures id
    let comparison := engine.comparison mapping
    CoversItself (comparison.sourceDegrees features features)
        (engine.sourceCoverage mapping id id).value ∧
      CoversItself (comparison.targetDegrees features features)
        (engine.targetCoverage mapping id id).value ∧
      ((∀ feature ∈ features, ∀ other ∈ features,
          comparison.featureSimilarity feature other ∈ [0.0, 1.0]) →
        (engine.sourceCoverage mapping id id).value = 1.0 ∧
          (engine.targetCoverage mapping id id).value = 1.0) := by
  intro features comparison
  have unaidedScore : ∀ feature other, comparison.featureSimilarity feature other ∈ unaidedScores :=
    Comparison.featureSimilarity_mem_unaidedScores unaided
  have certain : ∀ feature ∈ features, comparison.featureSimilarity feature feature = 1.0 :=
    fun feature member => Comparison.featureSimilarity_self unaided (known feature member)
  have asSource : CoversItself (comparison.sourceDegrees features features)
      (engine.sourceCoverage mapping id id).value := coversItself unaidedScore certain
  have asTarget : CoversItself (comparison.targetDegrees features features)
      (engine.targetCoverage mapping id id).value :=
    coversItself (fun feature other => unaidedScore other feature) certain
  refine ⟨asSource, asTarget, fun clear => ⟨asSource.whole.mpr ?_, asTarget.whole.mpr ?_⟩⟩
  · exact shortOfOne_eq_zero clear certain
  · exact shortOfOne_eq_zero (fun feature member other listed => clear other listed feature member)
      certain

end Engine

/-! ## Two names that are similar in part -/

/-- An entity with the attributes `orders` and `order`. -/
def ledger : Engine where
  model := [Edit.insertEntity (.named "Ledger"),
    .attachAttribute ⟨0⟩ { name := "orders", type := .primitive "int", owner := ⟨0⟩ },
    .attachAttribute ⟨0⟩ { name := "order", type := .primitive "int", owner := ⟨0⟩ }].foldl
    Edit.apply .empty
  known := [⟨0⟩]

theorem known_ledger : ∀ feature ∈ ledger.model.localFeatures ⟨0⟩, ∀ referred ∈ feature.type.leaf?,
    referred ∈ ledger.known := by
  decide +kernel

theorem sourceDegrees_ledger :
    (ledger.comparison .empty).sourceDegrees (ledger.model.localFeatures ⟨0⟩)
      (ledger.model.localFeatures ⟨0⟩) = [belowOne, belowOne] := by
  decide +kernel

theorem coverage_of_ledger :
    ledger.thesaurus = .empty ∧
      (∀ feature ∈ ledger.model.localFeatures ⟨0⟩, ∀ referred ∈ feature.type.leaf?,
        referred ∈ ledger.known) ∧
      Denotes (ledger.sourceCoverage .empty ⟨0⟩ ⟨0⟩).value (1 - 2 * stepBelowOne) := by
  have covers := (ledger.coverage_of_itself .empty ⟨0⟩ rfl known_ledger).1
  have short : shortOfOne [belowOne, belowOne] = 2 := by decide +kernel
  refine ⟨rfl, known_ledger, ?_⟩
  rw [sourceDegrees_ledger] at covers
  simpa only [short, Nat.cast_ofNat] using covers.short (by rw [short]; decide)

/-- The entity does not cover itself in full: each feature falls a step short next to its plural. -/
theorem sourceCoverage_ledger :
    ledger.thesaurus = .empty ∧
      (∀ feature ∈ ledger.model.localFeatures ⟨0⟩, ∀ referred ∈ feature.type.leaf?,
        referred ∈ ledger.known) ∧
      (ledger.sourceCoverage .empty ⟨0⟩ ⟨0⟩).value = 0.9999999999999998 ∧
      (ledger.sourceCoverage .empty ⟨0⟩ ⟨0⟩).value ≠ 1.0 ∧
      (ledger.targetCoverage .empty ⟨0⟩ ⟨0⟩).value ≠ 1.0 :=
  ⟨rfl, known_ledger, by decide +kernel, by decide +kernel, by decide +kernel⟩

end ClassModel
