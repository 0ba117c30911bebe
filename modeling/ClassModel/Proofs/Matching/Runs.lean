import ClassModel.Proofs.Matching.Pairs
import ClassModel.Proofs.Matching.Recording

/-! Mappings built by runs of matching.

What a pair takes over from the correspondence of its superclass is put into the pairing without
looking. It is one to one there because everything recorded so far is one to one.
-/

set_option autoImplicit false

namespace ClassModel

/-- The mappings that matching leads to, by whatever engines. -/
inductive Mapping.Obtained : Mapping → Prop where
  | empty : Obtained .empty
  | similarity {mapping : Mapping} (engine : Engine) (source target : EntityId) :
      Obtained mapping → Obtained (engine.similarity mapping source target).value.2
  | matchModels {mapping : Mapping} (engine : Engine) (sources targets : List EntityId) :
      Obtained mapping → Obtained (engine.matchModels mapping sources targets).value.mapping
  | merge {mapping other : Mapping} :
      Obtained mapping → Obtained other → Obtained (mapping.merge other)

/-- The score is the sum of the scores of pairs that share no source and no target. -/
structure EntityMatch.Consistent (entry : EntityMatch) : Prop where
  apart : OneToOne entry.featureMatches
  score : entry.score = Fuzzy.sum (entry.featureMatches.map FeatureMatch.score)

namespace Mapping

structure Consistent (mapping : Mapping) : Prop where
  entries : ∀ entry ∈ mapping.entries, entry.Consistent
  once : (mapping.entries.map EntityMatch.source).Nodup

namespace Consistent

variable {mapping other : Mapping}

theorem empty : Mapping.empty.Consistent := ⟨by simp [Mapping.empty], List.nodup_nil⟩

theorem record (consistent : mapping.Consistent) {offered : EntityMatch}
    (sound : offered.Consistent) : (mapping.record offered).Consistent := by
  refine ⟨fun entry member => ?_, nodup_sources_record consistent.once⟩
  rcases mem_record member with rfl | earlier
  · exact sound
  · exact consistent.entries entry earlier

theorem merge (consistent : mapping.Consistent) (sound : other.Consistent) :
    (mapping.merge other).Consistent :=
  List.foldlRecOn (motive := Mapping.Consistent) other.entries Mapping.record consistent
    fun _ soFar entry member => soFar.record (sound.entries entry member)

end Consistent

end Mapping

namespace Engine

variable {mapping : Mapping} (engine : Engine) (source target : EntityId)

/-! ## Pairs and runs -/

theorem oneToOne_inheritedMatches (consistent : mapping.Consistent) :
    OneToOne (engine.inheritedMatches mapping source) := by
  unfold inheritedMatches
  split
  · split
    · rename_i entry found
      obtain ⟨parent, _, recorded⟩ := Option.bind_eq_some_iff.mp found
      have apart := (consistent.entries entry (Mapping.mem_of_get? recorded)).apart
      -- Only kinds and scores are changed; the paths are those recorded.
      constructor
      · rw [List.map_map]
        exact apart.sources
      · rw [List.map_map]
        exact apart.targets
    · exact .nil
  · exact .nil

theorem pairSimilarity_consistent (consistent : mapping.Consistent) {found : EntityMatch}
    (matched : (engine.pairSimilarity mapping source target).value = some found) :
    found.Consistent := by
  obtain ⟨_, rfl⟩ := engine.pairSimilarity_eq_some mapping source target matched
  have grown := grows_runStages (engine.comparison mapping)
    (engine.stages mapping source target) ⟨engine.inheritedMatches mapping source⟩
  constructor
  · rw [featureMatches_scorePair]
    exact grown.oneToOne (engine.oneToOne_inheritedMatches source consistent)
  · rfl

theorem value_similarity (mapping : Mapping) :
    (engine.similarity mapping source target).value.2 =
      match (engine.pairSimilarity mapping source target).value with
      | some found => mapping.record found
      | none => mapping := by
  unfold similarity
  rw [Noted.value_bind]
  cases (engine.pairSimilarity mapping source target).value <;> rfl

theorem similarity_consistent (consistent : mapping.Consistent) :
    (engine.similarity mapping source target).value.2.Consistent := by
  rw [value_similarity]
  split
  · rename_i found matched
    exact consistent.record (engine.pairSimilarity_consistent source target consistent matched)
  · exact consistent

-- The ranking only reads the mapping; what changes it is one call of `similarity`.
theorem mapping_matchSource (targets : List EntityId) (state : Matching) :
    (engine.matchSource targets state source).value.mapping =
      match (engine.bestTarget state.mapping source targets).value with
      | some best => (engine.similarity state.mapping source best.target).value.2
      | none => state.mapping := by
  unfold matchSource
  rw [Noted.value_bind]
  cases (engine.bestTarget state.mapping source targets).value with
  | none => rfl
  | some best =>
    simp only [Noted.value_bind]
    split <;> rfl

-- A source is recorded when the pair with the target it is given is not refused.
theorem matchSource_records (targets : List EntityId) (state : Matching) :
    (engine.matchSource targets state source).value.mapping = state.mapping ∨
      ∃ target found, (engine.pairSimilarity state.mapping source target).value = some found ∧
        (engine.matchSource targets state source).value.mapping = state.mapping.record found := by
  rw [mapping_matchSource]
  split
  · rename_i best _
    rw [value_similarity]
    cases matched : (engine.pairSimilarity state.mapping source best.target).value with
    | none => exact .inl rfl
    | some found => exact .inr ⟨best.target, found, matched, rfl⟩
  · exact .inl rfl

theorem mapping_matchModels (mapping : Mapping) (sources targets : List EntityId) :
    (engine.matchModels mapping sources targets).value.mapping =
      ((engine.model.superclassFirstOrder sources).foldl
        (fun state source => (engine.matchSource targets state source).value)
        { mapping := mapping }).mapping := by
  unfold matchModels
  simp only [Noted.value_bind, Noted.value_pure, Noted.value_foldlM]
  rfl

theorem matchModels_consistent (consistent : mapping.Consistent) (sources targets : List EntityId) :
    (engine.matchModels mapping sources targets).value.mapping.Consistent := by
  rw [mapping_matchModels]
  refine List.foldlRecOn (motive := fun state : Matching => state.mapping.Consistent) _ _
    consistent ?_
  intro state soFar source _
  rcases engine.matchSource_records source targets state with same | ⟨target, found, matched, recorded⟩
  · rw [same]
    exact soFar
  · rw [recorded]
    exact soFar.record (engine.pairSimilarity_consistent source target soFar matched)

end Engine

theorem Mapping.Obtained.consistent {mapping : Mapping} (obtained : mapping.Obtained) :
    mapping.Consistent := by
  induction obtained with
  | empty => exact .empty
  | similarity engine source target _ ih => exact engine.similarity_consistent source target ih
  | matchModels engine sources targets _ ih =>
    exact engine.matchModels_consistent ih sources targets
  | merge _ _ ih ihOther => exact ih.merge ihOther

/-- Parties, clients and their customers, and then what a run over parties, customers and places
finds. -/
def clientsMapping : Mapping :=
  (matchClients.similarity partiesMapping ⟨1⟩ ⟨3⟩).value.2.merge
    (matchClients.matchModels .empty [⟨0⟩, ⟨3⟩, ⟨4⟩] [⟨2⟩, ⟨1⟩]).value.mapping

/-- The client takes over the pair of the party, which both mappings have, and no place is mapped. -/
theorem consistent_clientsMapping :
    (clientsMapping.entries.map fun entry => (entry.source.index, entry.target.index,
      entry.featureMatches.map fun pair => (pair.source.name, pair.target.name))) =
        [(0, 2, [("id", "id")]),
          (1, 3, [("id", "id"), ("name", "Name"), ("age", "address.zip"), ("notes", "remarks")]),
          (3, 1, [("Name", "name"), ("remarks", "notes"), ("address.zip", "age")])] ∧
    clientsMapping.Obtained ∧ clientsMapping.Consistent := by
  have parties : partiesMapping.Obtained := .similarity matchClients ⟨0⟩ ⟨2⟩ .empty
  have obtained : clientsMapping.Obtained :=
    .merge (.similarity matchClients ⟨1⟩ ⟨3⟩ parties)
      (.matchModels matchClients [⟨0⟩, ⟨3⟩, ⟨4⟩] [⟨2⟩, ⟨1⟩] .empty)
  exact ⟨by decide +kernel, obtained, obtained.consistent⟩

end ClassModel
