import ClassModel.Naming.Thesaurus
import Mathlib.Data.List.Induction
import Mathlib.Data.Finset.Card
import Mathlib.Data.Sym.Sym2

/-! A thesaurus told by all that was written into it.

Whoever asks for the score of two words gets the last one that was written for them, and the size of a
thesaurus is the number of pairs that anything was written for.
-/

set_option autoImplicit false

namespace ClassModel.Naming

/-- A score written for two words. -/
structure Writing where
  first : String
  second : String
  score : Float

namespace Writing

def key (writing : Writing) : String × String := Thesaurus.key writing.first writing.second

/-- The two words in lowercase, in no order. -/
def pair (writing : Writing) : Sym2 String :=
  s(Text.lowercase writing.first, Text.lowercase writing.second)

end Writing

/-- What an entry writes: for each word in turn, its score with every word after it. -/
def ThesaurusEntry.writings (entry : ThesaurusEntry) : List Writing :=
  entry.words.zipIdx.flatMap fun (first, place) =>
    (entry.words.drop (place + 1)).map fun second => ⟨first, second, entry.score⟩

namespace Thesaurus

def write (thesaurus : Thesaurus) (writings : List Writing) : Thesaurus :=
  writings.foldl (fun table writing => table.insert writing.first writing.second writing.score)
    thesaurus

/-! ## Keys stand for unordered pairs -/

theorem unordered_key (first second : String) :
    s((key first second).1, (key first second).2) =
      s(Text.lowercase first, Text.lowercase second) := by
  simp only [key]
  split
  · exact Sym2.eq_swap
  · rfl

theorem key_eq_iff {first second other another : String} :
    key first second = key other another ↔
      s(Text.lowercase first, Text.lowercase second) =
        s(Text.lowercase other, Text.lowercase another) := by
  constructor
  · intro same
    rw [← unordered_key, ← unordered_key, same]
  · intro same
    rcases Sym2.eq_iff.mp same with ⟨left, right⟩ | ⟨left, right⟩
    · simp only [key, left, right]
    · rw [key_comm other another]
      simp only [key, left, right]

/-! ## The last score of a pair -/

theorem lookup_filter_ne {Key Value : Type} [BEq Key] [LawfulBEq Key] {key asked : Key}
    (apart : asked ≠ key) (pairs : List (Key × Value)) :
    (pairs.filter (·.1 != key)).lookup asked = pairs.lookup asked := by
  induction pairs with
  | nil => rfl
  | cons pair rest ih =>
    rw [List.filter_cons, List.lookup_cons]
    by_cases dropped : pair.1 = key
    · rw [if_neg (by simp [dropped]), ih, dropped, beq_eq_false_iff_ne.mpr apart]
    · rw [if_pos (by simp [dropped]), List.lookup_cons, ih]

theorem lookup_insert (thesaurus : Thesaurus) (first second other another : String)
    (score : Float) :
    (thesaurus.insert first second score).lookup other another =
      if key other another = key first second then some (Decimal.clamp 0.0 1.0 score)
      else thesaurus.lookup other another := by
  simp only [lookup, insert, List.lookup_cons]
  by_cases same : key other another = key first second
  · simp [same]
  · rw [if_neg same, beq_eq_false_iff_ne.mpr same, lookup_filter_ne same]

theorem lookup_write (writings : List Writing) (first second : String) :
    (empty.write writings).lookup first second =
      (writings.findRev? fun writing =>
        writing.pair = s(Text.lowercase first, Text.lowercase second)).map
          fun writing => Decimal.clamp 0.0 1.0 writing.score := by
  induction writings using List.reverseRecOn with
  | nil => rfl
  | append_singleton writings last ih =>
    have step : empty.write (writings ++ [last]) =
        (empty.write writings).insert last.first last.second last.score := by
      simp [write]
    rw [step, lookup_insert, ih]
    simp only [List.findRev?_eq_find?_reverse, List.reverse_append, List.reverse_singleton,
      List.singleton_append, List.find?_cons]
    by_cases asked : last.pair = s(Text.lowercase first, Text.lowercase second)
    · rw [if_pos (key_eq_iff.mpr asked.symm)]
      simp [asked]
    · rw [if_neg fun same => asked (key_eq_iff.mp same).symm]
      simp [asked]

/-! ## The pairs that have a score -/

def keys (thesaurus : Thesaurus) : List (String × String) := thesaurus.pairs.map (·.1)

theorem keys_insert (thesaurus : Thesaurus) (first second : String) (score : Float) :
    (thesaurus.insert first second score).keys =
      key first second :: thesaurus.keys.filter (· != key first second) := by
  simp [keys, insert, List.filter_map, Function.comp_def]

theorem nodup_keys_write (writings : List Writing) : (empty.write writings).keys.Nodup := by
  refine List.foldlRecOn (motive := fun table : Thesaurus => table.keys.Nodup) writings _
    .nil ?_
  intro table once writing _
  rw [keys_insert, List.nodup_cons]
  exact ⟨by simp, once.filter _⟩

theorem toFinset_keys_write (writings : List Writing) :
    (empty.write writings).keys.toFinset = (writings.map Writing.key).toFinset := by
  ext asked
  induction writings using List.reverseRecOn with
  | nil => rfl
  | append_singleton writings last ih =>
    have step : (empty.write (writings ++ [last])).keys =
        last.key :: (empty.write writings).keys.filter (· != last.key) := by
      simp only [write, List.foldl_append, List.foldl_cons, List.foldl_nil, keys_insert]
      rfl
    simp only [List.mem_toFinset] at ih
    by_cases same : asked = last.key <;> simp [step, ih, same]

theorem size_write (writings : List Writing) :
    (empty.write writings).size = (writings.map Writing.pair).toFinset.card := by
  have unordered : (writings.map Writing.pair).toFinset =
      (writings.map Writing.key).toFinset.image fun key => s(key.1, key.2) := by
    ext pair
    simp [Writing.key, Writing.pair, unordered_key]
  have injective : Set.InjOn (fun key : String × String => s(key.1, key.2))
      (writings.map Writing.key).toFinset := by
    intro left leftWritten right rightWritten same
    obtain ⟨one, -, rfl⟩ := by simpa using leftWritten
    obtain ⟨other, -, rfl⟩ := by simpa using rightWritten
    simp only [Writing.key, unordered_key] at same
    exact key_eq_iff.mpr same
  calc (empty.write writings).size
    _ = (empty.write writings).keys.length := by simp [size, keys]
    _ = (empty.write writings).keys.toFinset.card :=
      (List.toFinset_card_of_nodup (nodup_keys_write writings)).symm
    _ = (writings.map Writing.key).toFinset.card := by rw [toFinset_keys_write]
    _ = (writings.map Writing.pair).toFinset.card := by
      rw [unordered, Finset.card_image_of_injOn injective]

/-! ## Entries -/

-- The recursion over the words keeps the place of the next word in the whole list.
theorem pairsOf_eq_flatMap {whole words : List String} {place : Nat}
    (left : whole.drop place = words) :
    pairsOf words = (words.zipIdx place).flatMap fun (first, place) =>
      (whole.drop (place + 1)).map (first, ·) := by
  induction words generalizing place with
  | nil => rfl
  | cons first rest ih =>
    have next : whole.drop (place + 1) = rest := by
      rw [← List.drop_drop, left, List.drop_one, List.tail_cons]
    rw [pairsOf, ih next, List.zipIdx_cons, List.flatMap_cons]
    dsimp only
    rw [next]

theorem addEntry_eq_write (thesaurus : Thesaurus) (entry : ThesaurusEntry) :
    thesaurus.addEntry entry = thesaurus.write entry.writings := by
  have related : entry.writings = (pairsOf entry.words).map fun words =>
      ⟨words.1, words.2, entry.score⟩ := by
    simp only [pairsOf_eq_flatMap List.drop_zero, List.map_flatMap, List.map_map]
    rfl
  rw [addEntry, write, related, List.foldl_map]

theorem ofEntries_eq_write (entries : List ThesaurusEntry) :
    ofEntries entries = empty.write (entries.flatMap ThesaurusEntry.writings) := by
  rw [ofEntries, write, List.foldl_flatMap]
  exact congrArg (fun step => entries.foldl step empty) (funext₂ addEntry_eq_write)

/-- A thesaurus answers with the last score that was written for two words, in either order and any
case, and counts the pairs that were ever written. -/
theorem keepsLastWritten (entries : List ThesaurusEntry) (inserts : List Writing) :
    let writings := entries.flatMap ThesaurusEntry.writings ++ inserts
    let thesaurus := (ofEntries entries).write inserts
    (∀ first second, thesaurus.lookup first second =
      (writings.findRev? fun writing =>
        writing.pair = s(Text.lowercase first, Text.lowercase second)).map
          fun writing => Decimal.clamp 0.0 1.0 writing.score) ∧
    thesaurus.size = (writings.map Writing.pair).toFinset.card := by
  intro writings thesaurus
  have told : thesaurus = empty.write writings := by
    simp only [thesaurus, writings, ofEntries_eq_write, write, List.foldl_append]
  rw [told]
  exact ⟨lookup_write writings, size_write writings⟩

end Thesaurus

end ClassModel.Naming
