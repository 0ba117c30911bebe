import ClassModel.Naming.Similarity
import Mathlib.Data.List.Iterate

/-! Similarities of names without a thesaurus.

Two words are the same, a word and its plural, or not related. Whatever words two names have, the
degrees that their scores are combined to are few, and rounded to three decimals they are fewer.
-/

set_option autoImplicit false

namespace ClassModel.Naming

theorem lookupEither_empty (first second : String) :
    Thesaurus.empty.lookupEither first second = none := by
  rw [Thesaurus.lookupEither_eq, Thesaurus.lookup_empty]

theorem wordSimilarity_empty (first second : String) :
    wordSimilarity .empty first second ∈ [0.0, numberVariantScore, 1.0] := by
  rw [wordSimilarity, lookupEither_empty]
  dsimp only
  split_ifs <;> simp

theorem mem_pairScores_empty {first second : List String} {score : Float}
    (member : score ∈ pairScores .empty first second) : score ∈ [numberVariantScore, 1.0] := by
  obtain ⟨listed, positive⟩ := List.mem_filter.mp member
  obtain ⟨word, _, ⟨other, _, rfl⟩⟩ := by
    simpa only [List.mem_flatMap, List.mem_map] using listed
  have one := wordSimilarity_empty word other
  rcases List.mem_cons.mp one with none | some
  · rw [none] at positive
    exact absurd positive (by decide +kernel)
  · exact some

/-- The degrees that numbers of related words lead to. Equal words add nothing to them. -/
def variantDegrees : List Float := List.iterate (Fuzzy.softOr · numberVariantScore) 0.0 18

theorem softOr_variantDegrees : ∀ degree ∈ variantDegrees, ∀ score ∈ [numberVariantScore, 1.0],
    ∃ next ∈ variantDegrees, Fuzzy.softOr degree score = next := by
  decide +kernel

theorem softOrAll_mem_variantDegrees {scores : List Float}
    (each : ∀ score ∈ scores, score ∈ [numberVariantScore, 1.0]) :
    Fuzzy.softOrAll scores ∈ variantDegrees := by
  refine List.foldlRecOn (motive := fun degree => degree ∈ variantDegrees) scores _
    List.mem_cons_self ?_
  intro degree soFar score member
  obtain ⟨next, listed, same⟩ := softOr_variantDegrees degree soFar score (each score member)
  exact same ▸ listed

/-- All similarities of two names without a thesaurus. -/
def unaidedSimilarities : List Float := [0.0, 0.9, 0.99, 0.999, 1.0]

theorem roundThousandths_variantDegrees : ∀ degree ∈ variantDegrees,
    ∃ similarity ∈ unaidedSimilarities, Decimal.roundThousandths degree = similarity := by
  decide +kernel

theorem nameSimilarity_empty (first second : String) :
    nameSimilarity .empty first second ∈ unaidedSimilarities := by
  rw [nameSimilarity, lookupEither_empty]
  dsimp only
  split_ifs
  · simp [unaidedSimilarities]
  · have combined : Fuzzy.softOrAll (sortScores
        (pairScores .empty (Text.words first) (Text.words second))) ∈ variantDegrees :=
      softOrAll_mem_variantDegrees fun score member =>
        mem_pairScores_empty (List.mem_mergeSort.mp member)
    obtain ⟨similarity, listed, same⟩ := roundThousandths_variantDegrees _ combined
    exact same ▸ listed

end ClassModel.Naming
