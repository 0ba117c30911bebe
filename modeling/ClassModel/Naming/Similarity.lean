import ClassModel.Naming.Thesaurus
import ClassModel.Text.Words
import ClassModel.Text.Plural
import ClassModel.Fuzzy

/-! Similarity of names.

The thesaurus has the first word, for whole names and for single words; then equality up to case
counts as one. Names that neither decides are split into words: the scores of all pairs of words
are combined from the smallest to the largest, so that the order of the names does not matter.
-/

set_option autoImplicit false

namespace ClassModel.Naming

/-- The score of a word and its plural. -/
def numberVariantScore : Float := 0.9

def wordSimilarity (thesaurus : Thesaurus) (first second : String) : Float :=
  match thesaurus.lookupEither first second with
  | some score => score
  | none =>
    if Text.sameIgnoringAsciiCase first second then 1.0
    else if Text.areNumberVariants first second then numberVariantScore
    else 0.0

theorem wordSimilarity_comm (thesaurus : Thesaurus) (first second : String) :
    wordSimilarity thesaurus first second = wordSimilarity thesaurus second first := by
  unfold wordSimilarity
  rw [Thesaurus.lookupEither_comm, Text.sameIgnoringAsciiCase_comm, Text.areNumberVariants_comm]

/-- The positive scores of the pairs of a word of one name and a word of the other. -/
def pairScores (thesaurus : Thesaurus) (first second : List String) : List Float :=
  (first.flatMap fun word => second.map (wordSimilarity thesaurus word)).filter (0.0 < ·)

def sortScores (scores : List Float) : List Float :=
  scores.mergeSort fun low high => Decimal.orderKey low ≤ Decimal.orderKey high

/-- The similarity of two names, to three decimals. -/
def nameSimilarity (thesaurus : Thesaurus) (first second : String) : Float :=
  match thesaurus.lookupEither first second with
  | some score => Decimal.roundThousandths score
  | none =>
    if Text.sameIgnoringAsciiCase first second then 1.0
    else
      let scores := pairScores thesaurus (Text.words first) (Text.words second)
      Decimal.roundThousandths (Fuzzy.softOrAll (sortScores scores))

end ClassModel.Naming
