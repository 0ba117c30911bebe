import ClassModel.Text.Lowercase
import ClassModel.Decimal.Binary

/-! Related words.

A thesaurus gives a score to some unordered pairs of words, whatever their case. A pair has the
score it was given last.
-/

set_option autoImplicit false

namespace ClassModel.Naming

structure ThesaurusEntry where
  words : List String
  score : Float := 1.0
  deriving BEq

structure Thesaurus where
  pairs : List ((String × String) × Float) := []

namespace Thesaurus

def empty : Thesaurus := {}

/-- The lowercase words of a pair in alphabetical order. -/
def key (first second : String) : String × String :=
  let first := Text.lowercase first
  let second := Text.lowercase second
  if second < first then (second, first) else (first, second)

theorem key_comm (first second : String) : key first second = key second first := by
  simp only [key]
  generalize Text.lowercase first = left
  generalize Text.lowercase second = right
  by_cases below : right < left
  · have above : ¬ left < right := fun other => String.lt_irrefl _ (String.lt_trans below other)
    simp [below, above]
  · by_cases above : left < right
    · simp [below, above]
    · have same : left = right := String.le_antisymm (String.not_lt.mp below) (String.not_lt.mp above)
      simp [same]

def lookup (thesaurus : Thesaurus) (first second : String) : Option Float :=
  thesaurus.pairs.lookup (key first second)

theorem lookup_comm (thesaurus : Thesaurus) (first second : String) :
    thesaurus.lookup first second = thesaurus.lookup second first := by
  rw [lookup, lookup, key_comm]

/-- The score of two words, asked for in both orders. -/
def lookupEither (thesaurus : Thesaurus) (first second : String) : Option Float :=
  match thesaurus.lookup first second, thesaurus.lookup second first with
  | some forward, some backward => some (Decimal.larger forward backward)
  | forward, backward => forward.or backward

theorem lookupEither_eq (thesaurus : Thesaurus) (first second : String) :
    thesaurus.lookupEither first second = thesaurus.lookup first second := by
  rw [lookupEither, thesaurus.lookup_comm second first]
  cases thesaurus.lookup first second <;> simp

theorem lookupEither_comm (thesaurus : Thesaurus) (first second : String) :
    thesaurus.lookupEither first second = thesaurus.lookupEither second first := by
  rw [lookupEither_eq, lookupEither_eq, lookup_comm]

@[simp] theorem lookup_empty (first second : String) : empty.lookup first second = none := rfl

/-- Relate two words. A score outside zero to one counts as the nearer end. -/
def insert (thesaurus : Thesaurus) (first second : String) (score : Float) : Thesaurus :=
  let pair := key first second
  ⟨(pair, Decimal.clamp 0.0 1.0 score) :: thesaurus.pairs.filter (·.1 != pair)⟩

def size (thesaurus : Thesaurus) : Nat := thesaurus.pairs.length

def isEmpty (thesaurus : Thesaurus) : Bool := thesaurus.pairs.isEmpty

/-- Every pair of an earlier and a later item. -/
def pairsOf {α : Type} : List α → List (α × α)
  | [] => []
  | first :: rest => rest.map (first, ·) ++ pairsOf rest

def addEntry (thesaurus : Thesaurus) (entry : ThesaurusEntry) : Thesaurus :=
  (pairsOf entry.words).foldl (fun table pair => table.insert pair.1 pair.2 entry.score) thesaurus

def ofEntries (entries : List ThesaurusEntry) : Thesaurus := entries.foldl addEntry empty

end Thesaurus

end ClassModel.Naming
