import ClassModel.Config
import ClassModel.Proofs.Matching.Merging
import ClassModel.Proofs.Matching.Runs
import ClassModel.Proofs.Matching.Scores

/-! The strongest correspondence of a source.

As long as scores are numbers, a correspondence that is recorded stays or gives way to one with a
greater score. A thesaurus can leave a score undefined. Such a score compares with no other, so it
takes the place of any score and leaves it to any.
-/

set_option autoImplicit false

namespace ClassModel

open Decimal

namespace EntityMatch

/-- Whether one correspondence of a source is replaced by another one that is offered: by one with a
greater score, or when one of the two scores is not a number. -/
def GivesWayTo (entry offered : EntityMatch) : Prop :=
  entry.score < offered.score ∨ entry.score.isNaN = true ∨ offered.score.isNaN = true

/-- The same correspondence, or one with a greater score. -/
def AtLeast (entry later : EntityMatch) : Prop := later = entry ∨ entry.score < later.score

variable {entry offered later : EntityMatch}

theorem not_le_iff_givesWayTo : ¬ offered.score ≤ entry.score ↔ entry.GivesWayTo offered := by
  cases number : entry.score.isNaN with
  | true =>
    have apart : ¬ offered.score ≤ entry.score := fun below =>
      Bool.ne_false_iff.mpr number (numbers_of_le below).2
    exact iff_of_true apart (.inr (.inl number))
  | false =>
    cases otherNumber : offered.score.isNaN with
    | true =>
      have apart : ¬ offered.score ≤ entry.score := fun below =>
        Bool.ne_false_iff.mpr otherNumber (numbers_of_le below).1
      exact iff_of_true apart (.inr (.inr otherNumber))
    | false =>
      rw [GivesWayTo, number, otherNumber, not_le_iff_lt otherNumber number]
      simp only [Bool.false_eq_true, or_false]

theorem stronger_of_givesWayTo (weaker : entry.GivesWayTo offered) :
    entry.stronger offered = offered :=
  if_neg (not_le_iff_givesWayTo.mpr weaker)

theorem stronger_of_not_givesWayTo (stands : ¬ entry.GivesWayTo offered) :
    entry.stronger offered = entry :=
  if_pos (not_not.mp (mt not_le_iff_givesWayTo.mp stands))

theorem AtLeast.trans (first : entry.AtLeast offered) (second : offered.AtLeast later) :
    entry.AtLeast later := by
  rcases first with rfl | less
  · exact second
  · rcases second with rfl | greater
    · exact .inr less
    · exact .inr (lt_of_lt_of_le_compared less (le_of_lt_compared greater))

end EntityMatch

/-! ## One call -/

namespace Engine

variable (engine : Engine)

/-- The mapping after one more call for a source and a target. -/
def call (mapping : Mapping) (pair : EntityId × EntityId) : Mapping :=
  (engine.similarity mapping pair.1 pair.2).value.2

/-- The mapping that calls one after another lead to. -/
def afterCalls (calls : List (EntityId × EntityId)) : Mapping := calls.foldl engine.call .empty

section

variable {mapping : Mapping} {source target : EntityId} {entry found : EntityMatch}

theorem get?_call_of_scored
    (matched : (engine.pairSimilarity mapping source target).value = some found)
    (recorded : mapping.get? source = some entry) :
    (engine.call mapping (source, target)).get? source = some (entry.stronger found) := by
  have same : found.source = source := by
    obtain ⟨_, rfl⟩ := engine.pairSimilarity_eq_some mapping source target matched
    rfl
  rw [call, value_similarity, matched]
  dsimp only
  rw [Mapping.get?_record, if_pos same.symm, recorded, Option.merge_some_some]

theorem get?_call_of_ne {pair : EntityId × EntityId} (other : source ≠ pair.1) :
    (engine.call mapping pair).get? source = mapping.get? source := by
  rw [call, value_similarity]
  split
  · rename_i found matched
    obtain ⟨_, rfl⟩ := engine.pairSimilarity_eq_some mapping pair.1 pair.2 matched
    exact Mapping.get?_record_of_ne other
  · rfl

theorem get?_call (recorded : mapping.get? source = some entry) (pair : EntityId × EntityId) :
    ∃ final, (engine.call mapping pair).get? source = some final ∧
      (final = entry ∨ entry.GivesWayTo final) := by
  by_cases same : source = pair.1
  · obtain ⟨_, target⟩ := pair
    subst same
    cases matched : (engine.pairSimilarity mapping source target).value with
    | none =>
      rw [call, value_similarity, matched]
      exact ⟨entry, recorded, .inl rfl⟩
    | some found =>
      rw [engine.get?_call_of_scored matched recorded]
      by_cases weaker : entry.GivesWayTo found
      · rw [EntityMatch.stronger_of_givesWayTo weaker]
        exact ⟨found, rfl, .inr weaker⟩
      · rw [EntityMatch.stronger_of_not_givesWayTo weaker]
        exact ⟨entry, rfl, .inl rfl⟩
  · rw [engine.get?_call_of_ne same]
    exact ⟨entry, recorded, .inl rfl⟩

end

/-! ## Many calls -/

theorem scored_afterCalls (bounded : engine.thesaurus.Bounded)
    (calls : List (EntityId × EntityId)) :
    ∀ entry ∈ (engine.afterCalls calls).entries, entry.Scored engine.thesaurus := by
  refine List.foldlRecOn (motive := fun mapping : Mapping => ∀ entry ∈ mapping.entries,
    entry.Scored engine.thesaurus) calls engine.call (by simp [Mapping.empty]) ?_
  intro mapping soFar pair _ entry member
  rw [call, value_similarity] at member
  split at member
  · rename_i found matched
    rcases Mapping.mem_record member with rfl | earlier
    · exact engine.pairSimilarity_scored mapping pair.1 pair.2 bounded matched
    · exact soFar entry earlier
  · exact soFar entry member

theorem afterCalls_concat (calls : List (EntityId × EntityId)) (pair : EntityId × EntityId) :
    engine.afterCalls (calls ++ [pair]) = engine.call (engine.afterCalls calls) pair := by
  simp [afterCalls]

/-- The source has a score that is a number whenever it has one, from some calls on up to the end of
further ones. -/
def NumericDuring (source : EntityId) (early later : List (EntityId × EntityId)) : Prop :=
  ∀ calls, calls <+: later → ∀ entry,
    (engine.afterCalls (early ++ calls)).get? source = some entry → entry.score.isNaN = false

-- Every call leaves the correspondence or puts one in its place, and both scores are numbers.
theorem atLeast_afterCalls {source : EntityId} {early : List (EntityId × EntityId)}
    {entry : EntityMatch} (recorded : (engine.afterCalls early).get? source = some entry)
    (later : List (EntityId × EntityId)) (numeric : engine.NumericDuring source early later) :
    ∃ final, (engine.afterCalls (early ++ later)).get? source = some final ∧
      entry.AtLeast final := by
  induction later using List.reverseRecOn with
  | nil =>
    rw [List.append_nil]
    exact ⟨entry, recorded, .inl rfl⟩
  | append_singleton calls pair ih =>
    have before : calls <+: calls ++ [pair] := List.prefix_append calls [pair]
    obtain ⟨middle, found, atLeast⟩ := ih fun seen start => numeric seen (start.trans before)
    obtain ⟨final, foundFinal, kept⟩ := engine.get?_call found pair
    rw [← afterCalls_concat, List.append_assoc] at foundFinal
    refine ⟨final, foundFinal, ?_⟩
    have number := numeric calls before middle found
    have numberFinal := numeric _ List.prefix_rfl final foundFinal
    rcases kept with rfl | less | undefined | undefined
    · exact atLeast
    · exact atLeast.trans (.inr less)
    · exact absurd number (Bool.ne_false_iff.mpr undefined)
    · exact absurd numberFinal (Bool.ne_false_iff.mpr undefined)

/-- What the correspondence of a source says after some calls, and what becomes of it later. -/
structure KeepsStrongest (config : Config) (early : List (EntityId × EntityId)) (source : EntityId)
    (entry : EntityMatch) : Prop where
  undefined : entry.score.isNaN = true ↔
    ∃ pair ∈ entry.featureMatches, pair.Undefined engine.thesaurus
  zero_le : entry.score.isNaN = false → 0.0 ≤ entry.score
  replaced : ∀ target found,
    (engine.pairSimilarity (engine.afterCalls early) source target).value = some found →
    entry.GivesWayTo found →
    (engine.afterCalls (early ++ [(source, target)])).get? source = some found
  kept : ∀ target found,
    (engine.pairSimilarity (engine.afterCalls early) source target).value = some found →
    ¬ entry.GivesWayTo found →
    (engine.afterCalls (early ++ [(source, target)])).get? source = some entry
  stronger : ∀ later, engine.NumericDuring source early later →
    ∃ final, (engine.afterCalls (early ++ later)).get? source = some final ∧ entry.AtLeast final
  certain : (∀ given ∈ config.thesaurus, given.score.isNaN = false) → ∀ later,
    ∃ final, (engine.afterCalls (early ++ later)).get? source = some final ∧
      final.score.isNaN = false ∧ entry.AtLeast final

theorem isNaN_afterCalls {config : Config} (loaded : engine.thesaurus = config.thesaurusTable)
    (numbers : ∀ given ∈ config.thesaurus, given.score.isNaN = false)
    (calls : List (EntityId × EntityId)) :
    ∀ entry ∈ (engine.afterCalls calls).entries, entry.score.isNaN = false := by
  intro entry member
  have bounded : engine.thesaurus.Bounded := loaded ▸ Naming.Thesaurus.bounded_ofEntries _
  have scored := engine.scored_afterCalls bounded calls entry member
  by_contra notNumber
  obtain ⟨pair, -, -, undefined⟩ := scored.isNaN_iff.mp (Bool.eq_true_of_not_eq_false notNumber)
  rw [loaded] at undefined
  obtain ⟨given, listed, givenUndefined⟩ := Naming.Thesaurus.exists_of_undefined undefined
  exact Bool.ne_false_iff.mpr givenUndefined (numbers given listed)

/-- With any settings, the correspondence of a source is replaced only by one with a greater score, as
long as its scores are numbers. They always are when the scores of the thesaurus are. -/
theorem keepsStrongest (config : Config) (loaded : engine.thesaurus = config.thesaurusTable)
    (early : List (EntityId × EntityId)) (source : EntityId) {entry : EntityMatch}
    (recorded : (engine.afterCalls early).get? source = some entry) :
    engine.KeepsStrongest config early source entry := by
  have bounded : engine.thesaurus.Bounded := loaded ▸ Naming.Thesaurus.bounded_ofEntries _
  have scored := engine.scored_afterCalls bounded early entry (Mapping.mem_of_get? recorded)
  exact {
    undefined := scored.isNaN_iff
    zero_le := scored.zero_le
    replaced := by
      intro target found matched weaker
      rw [afterCalls_concat, engine.get?_call_of_scored matched recorded,
        EntityMatch.stronger_of_givesWayTo weaker]
    kept := by
      intro target found matched stands
      rw [afterCalls_concat, engine.get?_call_of_scored matched recorded,
        EntityMatch.stronger_of_not_givesWayTo stands]
    stronger := engine.atLeast_afterCalls recorded
    certain := by
      intro numbers later
      have numeric : engine.NumericDuring source early later := fun calls _ other found =>
        engine.isNaN_afterCalls loaded numbers _ other (Mapping.mem_of_get? found)
      obtain ⟨final, found, atLeast⟩ := engine.atLeast_afterCalls recorded later numeric
      exact ⟨final, found, numeric later List.prefix_rfl final found, atLeast⟩ }

end Engine

/-! ## An undefined score -/

/-- Three entities with an attribute each, the first two of one name. -/
def shop : Model :=
  [Edit.insertEntity (.named "Order"), .insertEntity (.named "Sale"),
    .insertEntity (.named "Purchase"),
    .attachAttribute ⟨0⟩ { name := "client", type := .primitive "String", owner := ⟨0⟩ },
    .attachAttribute ⟨1⟩ { name := "client", type := .primitive "String", owner := ⟨1⟩ },
    .attachAttribute ⟨2⟩ { name := "customer", type := .primitive "String", owner := ⟨2⟩ }].foldl
    Edit.apply .empty

def matchShop (config : Config) : Engine where
  model := shop
  thesaurus := config.thesaurusTable
  known := shop.entityIds
  options := config.matchOptions

def halfRelated : Config := { thesaurus := [{ words := ["client", "customer"], score := 0.5 }] }

theorem keepsStrongest_halfRelated :
    ∃ entry, ((matchShop halfRelated).afterCalls [(⟨0⟩, ⟨2⟩)]).get? ⟨0⟩ = some entry ∧
      entry.score = 0.5 ∧ (∀ given ∈ halfRelated.thesaurus, given.score.isNaN = false) ∧
      (matchShop halfRelated).KeepsStrongest halfRelated [(⟨0⟩, ⟨2⟩)] ⟨0⟩ entry := by
  have score : (((matchShop halfRelated).afterCalls [(⟨0⟩, ⟨2⟩)]).get? ⟨0⟩).map EntityMatch.score =
      some 0.5 := by decide +kernel
  obtain ⟨entry, found, half⟩ := Option.map_eq_some_iff.mp score
  exact ⟨entry, found, half, by decide +kernel,
    (matchShop halfRelated).keepsStrongest halfRelated rfl [(⟨0⟩, ⟨2⟩)] ⟨0⟩ found⟩

/-- Settings in which the score of two related words is not a number. -/
def undefinedSettings : String :=
  "[[thesaurus]]\nwords = [\"client\", \"customer\"]\nscore = nan\n"

/-- The settings are accepted, and with them a score of one gives way to one that is not a number. -/
theorem replaced_undefinedSettings :
    ∃ config, Config.ofText? undefinedSettings = some config ∧
      (((matchShop config).afterCalls [(⟨0⟩, ⟨1⟩)]).get? ⟨0⟩).map
        (fun entry => (entry.target, entry.score)) = some (⟨1⟩, 1.0) ∧
      (((matchShop config).afterCalls [(⟨0⟩, ⟨1⟩), (⟨0⟩, ⟨2⟩)]).get? ⟨0⟩).map
        (fun entry => (entry.target, entry.score.isNaN)) = some (⟨2⟩, true) := by
  have run : (Config.ofText? undefinedSettings).map (fun config =>
      ((((matchShop config).afterCalls [(⟨0⟩, ⟨1⟩)]).get? ⟨0⟩).map
        (fun entry => (entry.target, entry.score)),
      (((matchShop config).afterCalls [(⟨0⟩, ⟨1⟩), (⟨0⟩, ⟨2⟩)]).get? ⟨0⟩).map
        (fun entry => (entry.target, entry.score.isNaN)))) =
      some (some (⟨1⟩, 1.0), some (⟨2⟩, true)) := by decide +kernel
  obtain ⟨config, accepted, calls⟩ := Option.map_eq_some_iff.mp run
  exact ⟨config, accepted, (Prod.mk.inj calls).1, (Prod.mk.inj calls).2⟩

end ClassModel
