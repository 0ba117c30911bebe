import ClassModel.Naming.Similarity
import ClassModel.Proofs.Decimal.Ordering
import Mathlib.Data.List.Perm.Basic

/-! Scores of word pairs in either order of the names.

With the names exchanged the same scores are collected in another order. Sorting tells all numbers
apart that differ in a bit, so afterwards the lists are the same.
-/

set_option autoImplicit false

namespace ClassModel.Naming

-- Going through a grid by columns gives what going through it by rows gives, in another order.
theorem flatMap_map_perm {Row Column Score : Type} (score : Row → Column → Score)
    (rows : List Row) (columns : List Column) :
    (rows.flatMap fun row => columns.map (score row)).Perm
      (columns.flatMap fun column => rows.map (score · column)) := by
  induction rows with
  | nil => simp
  | cons row rest ih =>
    calc columns.map (score row) ++ rest.flatMap (fun row => columns.map (score row))
      List.Perm _ (columns.map (score row) ++
          columns.flatMap fun column => rest.map (score · column)) := ih.append_left _
      List.Perm _ _ := List.map_append_flatMap_perm columns (score row) _

theorem pairScores_perm (thesaurus : Thesaurus) (first second : List String) :
    (pairScores thesaurus first second).Perm (pairScores thesaurus second first) := by
  have exchanged : ∀ word, (first.map fun other => wordSimilarity thesaurus other word) =
      first.map (wordSimilarity thesaurus word) :=
    fun word => List.map_congr_left fun other _ => wordSimilarity_comm thesaurus other word
  have transposed := flatMap_map_perm (wordSimilarity thesaurus) first second
  simp only [exchanged] at transposed
  exact transposed.filter _

theorem pairwise_sortScores (scores : List Float) : (sortScores scores).Pairwise fun low high =>
    Decimal.orderKey low ≤ Decimal.orderKey high := by
  refine (List.pairwise_mergeSort ?_ ?_ scores).imp of_decide_eq_true
  · intro low middle high below above
    exact decide_eq_true (Int.le_trans (of_decide_eq_true below) (of_decide_eq_true above))
  · intro low high
    simpa using Int.le_total (Decimal.orderKey low) (Decimal.orderKey high)

theorem sortScores_eq_of_perm {scores others : List Float} (same : scores.Perm others) :
    sortScores scores = sortScores others := by
  have sorted : (sortScores scores).Perm (sortScores others) :=
    (List.mergeSort_perm _ _).trans (same.trans (List.mergeSort_perm _ _).symm)
  refine sorted.eq_of_pairwise ?_ (pairwise_sortScores scores) (pairwise_sortScores others)
  exact fun low high _ _ below above => Decimal.orderKey_injective (Int.le_antisymm below above)

theorem nameSimilarity_swap (thesaurus : Thesaurus) (first second : String) :
    nameSimilarity thesaurus first second = nameSimilarity thesaurus second first := by
  have scores := sortScores_eq_of_perm
    (pairScores_perm thesaurus (Text.words first) (Text.words second))
  unfold nameSimilarity
  rw [Thesaurus.lookupEither_comm, Text.sameIgnoringAsciiCase_comm]
  simp only [scores]

theorem nameSimilarity_toBits_comm (thesaurus : Thesaurus) (first second : String) :
    (nameSimilarity thesaurus first second).toBits =
      (nameSimilarity thesaurus second first).toBits := by
  rw [nameSimilarity_swap]

end ClassModel.Naming
