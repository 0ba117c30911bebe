import ClassModel.Naming.Similarity
import ClassModel.Proofs.Decimal.Signs
import ClassModel.Proofs.Fuzzy

/-! The numbers that a thesaurus leads to.

The scores of a thesaurus are from zero to one, or are not numbers. The latter make the similarity of
the names that they are given to not a number. Among the words of names they are passed over, as
everything is that is not positive.
-/

set_option autoImplicit false

namespace ClassModel.Naming

open ClassModel.Decimal

namespace Thesaurus

/-! ## Scores -/

/-- The pair has the score that one of the entries gives to two of its words. -/
def GivenBy (entries : List ThesaurusEntry) (pair : (String × String) × Float) : Prop :=
  ∃ entry ∈ entries, ∃ words ∈ pairsOf entry.words,
    pair = (key words.1 words.2, clamp 0.0 1.0 entry.score)

theorem givenBy_of_mem_ofEntries {entries : List ThesaurusEntry} :
    ∀ pair ∈ (ofEntries entries).pairs, GivenBy entries pair := by
  refine List.foldlRecOn (motive := fun table : Thesaurus => ∀ pair ∈ table.pairs,
    GivenBy entries pair) entries addEntry (by simp [empty]) ?_
  intro table given entry listed
  refine List.foldlRecOn (motive := fun table : Thesaurus => ∀ pair ∈ table.pairs,
    GivenBy entries pair) (pairsOf entry.words) _ given ?_
  intro table given words related pair member
  rcases List.mem_cons.mp member with rfl | earlier
  · exact ⟨entry, listed, words, related, rfl⟩
  · exact given pair (List.mem_filter.mp earlier).1

theorem mem_of_lookup {thesaurus : Thesaurus} {first second : String} {score : Float}
    (found : thesaurus.lookup first second = some score) :
    (key first second, score) ∈ thesaurus.pairs := by
  obtain ⟨before, after, split, -⟩ := List.lookup_eq_some_iff.mp found
  rw [split]
  exact List.mem_append_right _ List.mem_cons_self

/-- The two words have a score that is not a number. -/
def Undefined (thesaurus : Thesaurus) (first second : String) : Prop :=
  ∃ score, thesaurus.lookup first second = some score ∧ score.isNaN = true

/-- Every score is from zero to one or not a number. -/
def Bounded (thesaurus : Thesaurus) : Prop :=
  ∀ pair ∈ thesaurus.pairs, pair.2.isNaN = true ∨ 0.0 ≤ pair.2 ∧ pair.2 ≤ 1.0

theorem isNaN_clamp {score : Float} (undefined : score.isNaN = true) :
    clamp 0.0 1.0 score = score := by
  have notNumber : ¬ score.isNaN = false := Bool.ne_false_iff.mpr undefined
  have notBelow : ¬ score < 0.0 := fun below => notNumber (numbers_of_lt below).1
  have notAbove : ¬ 1.0 < score := fun above => notNumber (numbers_of_lt above).2
  rw [clamp, if_neg notBelow, if_neg notAbove]

theorem clamp_bounds {score : Float} (number : score.isNaN = false) :
    0.0 ≤ clamp 0.0 1.0 score ∧ clamp 0.0 1.0 score ≤ 1.0 := by
  have zero := denotes_zero.isNaN_eq_false
  have one := denotes_one.isNaN_eq_false
  have ordered : (0.0 : Float) ≤ 1.0 := (denotes_zero.le_iff denotes_one).mpr zero_le_one
  unfold clamp
  split
  · exact ⟨le_refl_number zero, ordered⟩
  · rename_i notBelow
    split
    · exact ⟨ordered, le_refl_number one⟩
    · rename_i notAbove
      rw [← not_le_iff_lt zero number, not_not] at notBelow
      rw [← not_le_iff_lt number one, not_not] at notAbove
      exact ⟨notBelow, notAbove⟩

theorem bounded_ofEntries (entries : List ThesaurusEntry) : (ofEntries entries).Bounded := by
  intro pair member
  obtain ⟨entry, -, _, -, rfl⟩ := givenBy_of_mem_ofEntries pair member
  cases number : entry.score.isNaN with
  | true => exact .inl ((isNaN_clamp number).symm ▸ number)
  | false => exact .inr (clamp_bounds number)

/-- No score that is a number is made one that is not. -/
theorem exists_of_undefined {entries : List ThesaurusEntry} {first second : String}
    (undefined : (ofEntries entries).Undefined first second) :
    ∃ entry ∈ entries, entry.score.isNaN = true := by
  obtain ⟨score, found, notNumber⟩ := undefined
  obtain ⟨entry, listed, _, -, same⟩ := givenBy_of_mem_ofEntries _ (mem_of_lookup found)
  refine ⟨entry, listed, ?_⟩
  obtain ⟨-, rfl⟩ := Prod.mk.inj same
  by_contra number
  have bounds := clamp_bounds (Bool.eq_false_of_not_eq_true number)
  rw [(numbers_of_le bounds.1).2] at notNumber
  cases notNumber

end Thesaurus

/-! ## Similarities -/

variable {thesaurus : Thesaurus} {first second : String}

theorem isNaN_nameSimilarity (undefined : thesaurus.Undefined first second) :
    (nameSimilarity thesaurus first second).isNaN = true := by
  obtain ⟨score, found, notNumber⟩ := undefined
  rw [nameSimilarity, Thesaurus.lookupEither_eq, found]
  exact isNaN_roundThousandths notNumber

theorem degree_of_mem_pairScores (bounded : thesaurus.Bounded) {left right : List String}
    {score : Float} (member : score ∈ pairScores thesaurus left right) : Fuzzy.Degree score := by
  obtain ⟨listed, positive⟩ := List.mem_filter.mp member
  replace positive := of_decide_eq_true positive
  obtain ⟨word, _, ⟨other, _, rfl⟩⟩ := by
    simpa only [List.mem_flatMap, List.mem_map] using listed
  unfold wordSimilarity at positive ⊢
  rw [Thesaurus.lookupEither_eq] at positive ⊢
  cases found : thesaurus.lookup word other with
  | some score =>
    rw [found] at positive
    rcases bounded _ (Thesaurus.mem_of_lookup found) with notNumber | bounds
    · exact absurd (numbers_of_lt positive).2 (Bool.ne_false_iff.mpr notNumber)
    · exact Fuzzy.degree_of_bounds positive bounds.2
  | none =>
    rw [found] at positive
    dsimp only at positive ⊢
    split_ifs at positive ⊢
    · exact Fuzzy.degree_one
    · exact Fuzzy.degree_of_bounds (by decide +kernel) (by decide +kernel)
    · exact Fuzzy.degree_zero

theorem nonneg_nameSimilarity (bounded : thesaurus.Bounded)
    (rated : ¬ thesaurus.Undefined first second) :
    Nonneg (nameSimilarity thesaurus first second) := by
  rw [nameSimilarity, Thesaurus.lookupEither_eq]
  cases found : thesaurus.lookup first second with
  | some score =>
    rcases bounded _ (Thesaurus.mem_of_lookup found) with notNumber | bounds
    · exact absurd ⟨score, found, notNumber⟩ rated
    · exact (Nonneg.of_zero_le bounds.1).roundThousandths
  | none =>
    dsimp only
    split_ifs
    · exact denotes_one.toNonneg
    · obtain ⟨value, -, exact⟩ := Fuzzy.degree_foldl_softOr
        (fun score member => degree_of_mem_pairScores bounded (List.mem_mergeSort.mp member))
        Fuzzy.degree_zero
      exact exact.toNonneg.roundThousandths

end ClassModel.Naming
