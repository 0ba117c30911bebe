import ClassModel.Proofs.Decimal.Ordering
import ClassModel.Proofs.Inheritance.Order
import ClassModel.Proofs.Matching.Runs

/-! What a run of matching has recorded, and why it left a source out.

Every given source has one turn, and nothing is recorded for it before. So whatever its turn offers is
accepted and counted at once, and a source without a correspondence was refused at its own turn.
-/

set_option autoImplicit false

namespace ClassModel

open Decimal

namespace Engine

/-! ## The chosen target -/

/-- The target a source is given: its rank is positive, no later one is ranked higher, and no earlier
one as high. -/
def Chooses (engine : Engine) (mapping : Mapping) (source : EntityId) (targets : List EntityId)
    (target : EntityId) : Prop :=
  let rank := fun other => (engine.compositeSimilarity mapping source other).value
  ∃ before after, targets = before ++ target :: after ∧ 0.0 < rank target ∧
    (∀ other ∈ before, ¬ rank target ≤ rank other) ∧ ∀ other ∈ after, ¬ rank target < rank other

variable {engine : Engine} {mapping : Mapping} {source : EntityId}

theorem Chooses.mem {targets : List EntityId} {target : EntityId}
    (chosen : engine.Chooses mapping source targets target) : target ∈ targets := by
  obtain ⟨before, after, rfl, _⟩ := chosen
  exact List.mem_append_right _ List.mem_cons_self

theorem Chooses.positive {targets : List EntityId} {target : EntityId}
    (chosen : engine.Chooses mapping source targets target) :
    0.0 < (engine.compositeSimilarity mapping source target).value := by
  obtain ⟨_, _, _, positive, _⟩ := chosen
  exact positive

theorem Chooses.later {targets : List EntityId} {target other : EntityId}
    (chosen : engine.Chooses mapping source targets target)
    (lower : ¬ (engine.compositeSimilarity mapping source target).value <
      (engine.compositeSimilarity mapping source other).value) :
    engine.Chooses mapping source (targets ++ [other]) target := by
  obtain ⟨before, after, rfl, positive, earlier, later⟩ := chosen
  refine ⟨before, after ++ [other], by simp, positive, earlier, ?_⟩
  exact List.forall_mem_append.mpr ⟨later, List.forall_mem_singleton.mpr lower⟩

-- Whoever is ranked above the best so far is ranked above all of them.
theorem Chooses.replaced {targets : List EntityId} {target other : EntityId}
    (chosen : engine.Chooses mapping source targets target)
    (higher : (engine.compositeSimilarity mapping source target).value <
      (engine.compositeSimilarity mapping source other).value) :
    engine.Chooses mapping source (targets ++ [other]) other := by
  obtain ⟨before, after, rfl, positive, earlier, later⟩ := chosen
  refine ⟨_, [], rfl, ?_, ?_, by simp⟩
  · exact lt_of_lt_of_le_compared positive (le_of_lt_compared higher)
  · intro listed member asHigh
    have above := lt_of_lt_of_le_compared higher asHigh
    rcases List.mem_append.mp member with first | rest
    · exact earlier listed first (le_of_lt_compared above)
    rcases List.mem_cons.mp rest with rfl | last
    · exact (not_le_iff_lt (numbers_of_lt above).1 (numbers_of_lt above).1).mpr above
        (le_of_lt_compared above)
    · exact later listed last above

/-- What the best of some targets says about all of them. -/
def RanksBest (engine : Engine) (mapping : Mapping) (source : EntityId) (targets : List EntityId) :
    Option Ranked → Prop
  | none => ∀ target ∈ targets, ¬ 0.0 < (engine.compositeSimilarity mapping source target).value
  | some best => best.composite = (engine.compositeSimilarity mapping source best.target).value ∧
      engine.Chooses mapping source targets best.target

theorem RanksBest.step {targets : List EntityId} {best : Option Ranked}
    (soFar : engine.RanksBest mapping source targets best) (target : EntityId) :
    engine.RanksBest mapping source (targets ++ [target])
      (engine.rankNext mapping source best target).value := by
  have next : (engine.rankNext mapping source best target).value =
      if (best.map Ranked.composite).getD 0.0 <
          (engine.compositeSimilarity mapping source target).value
      then some ⟨target, (engine.compositeSimilarity mapping source target).value⟩ else best := rfl
  rw [next]
  cases best with
  | none =>
    split
    · rename_i positive
      refine ⟨rfl, targets, [], rfl, positive, ?_, by simp⟩
      intro other member asHigh
      exact soFar other member (lt_of_lt_of_le_compared positive asHigh)
    · rename_i lower
      exact List.forall_mem_append.mpr ⟨soFar, List.forall_mem_singleton.mpr lower⟩
  | some best =>
    obtain ⟨composite, chosen⟩ := soFar
    simp only [Option.map_some, Option.getD_some, composite]
    split
    · rename_i higher
      exact ⟨rfl, chosen.replaced higher⟩
    · rename_i lower
      exact ⟨composite, chosen.later lower⟩

theorem ranksBest_bestTarget (engine : Engine) (mapping : Mapping) (source : EntityId)
    (targets : List EntityId) :
    engine.RanksBest mapping source targets (engine.bestTarget mapping source targets).value := by
  unfold bestTarget
  rw [Noted.value_foldlM]
  exact foldl_of_split (motive := engine.RanksBest mapping source) (by simp [RanksBest])
    fun done target _ best _ soFar => soFar.step target

-- Of two chosen targets the one that stands later would have to be ranked higher, and is not.
theorem Chooses.unique {targets : List EntityId} {first second : EntityId}
    (chosen : engine.Chooses mapping source targets first)
    (other : engine.Chooses mapping source targets second) : first = second := by
  obtain ⟨before, after, rfl, positive, earlier, later⟩ := chosen
  obtain ⟨otherBefore, otherAfter, same, otherPositive, otherEarlier, otherLater⟩ := other
  have number := (numbers_of_lt positive).2
  have otherNumber := (numbers_of_lt otherPositive).2
  rcases eq_or_apart_of_split same with here | ⟨firstEarly, secondLate⟩ | ⟨secondEarly, firstLate⟩
  · exact here
  · exact absurd ((not_le_iff_lt otherNumber number).mp (otherEarlier first firstEarly))
      (later second secondLate)
  · exact absurd ((not_le_iff_lt number otherNumber).mp (earlier second secondEarly))
      (otherLater first firstLate)

/-! ## One turn -/

theorem targetOf?_record_of_free (found : EntityMatch) (free : mapping.get? found.source = none) :
    (mapping.record found).targetOf? found.source = some found.target := by
  rw [Mapping.targetOf?, Mapping.get?_record_of_none free, Option.map_some]

/-- The correspondence that is recorded when a source gets its best target. -/
def offer (engine : Engine) (mapping : Mapping) (source target : EntityId) : EntityMatch :=
  (engine.scorePair mapping source target ⟨engine.inheritedMatches mapping source⟩).value

-- What is offered for a source that has nothing is recorded, and so counted.
theorem matchSource_of_free (targets : List EntityId) {state : Matching}
    (free : state.mapping.get? source = none) :
    (engine.matchSource targets state source).value =
      match (engine.bestTarget state.mapping source targets).value with
      | none => state
      | some best =>
        if engine.breaksHierarchy state.mapping source best.target then state
        else ⟨state.mapping.record (engine.offer state.mapping source best.target),
          state.matched + 1⟩ := by
  unfold matchSource
  rw [Noted.value_bind]
  cases (engine.bestTarget state.mapping source targets).value with
  | none => rfl
  | some best =>
    have after := engine.value_similarity source best.target state.mapping
    rw [value_pairSimilarity] at after
    simp only [Noted.value_bind]
    cases refused : engine.breaksHierarchy state.mapping source best.target with
    | true =>
      rw [refused, if_pos rfl] at after
      have unmapped : state.mapping.targetOf? source ≠ some best.target := by
        simp [Mapping.targetOf?, free]
      simp only [after, if_neg unmapped, if_pos, Noted.value_pure]
    | false =>
      rw [refused, if_neg Bool.false_ne_true] at after
      have mapped : (state.mapping.record (engine.offer state.mapping source best.target)).targetOf?
          source = some best.target := targetOf?_record_of_free (engine.offer _ _ _) free
      have recorded : (engine.similarity state.mapping source best.target).value.2 =
          state.mapping.record (engine.offer state.mapping source best.target) := after
      simp only [recorded, if_pos mapped, if_neg Bool.false_ne_true, Noted.value_bind,
        Noted.value_pure]

-- A best target stands for a chosen one, so a source without one has no target of positive rank.
theorem unmatched_iff (targets : List EntityId) {state : Matching}
    (free : state.mapping.get? source = none) :
    (engine.matchSource targets state source).value.mapping.get? source = none ↔
      (∀ target ∈ targets,
        ¬ 0.0 < (engine.compositeSimilarity state.mapping source target).value) ∨
      ∃ target, engine.Chooses state.mapping source targets target ∧
        engine.breaksHierarchy state.mapping source target = true := by
  have best := engine.ranksBest_bestTarget state.mapping source targets
  rw [matchSource_of_free targets free]
  split
  · rename_i none
    rw [none] at best
    exact iff_of_true free (.inl best)
  · rename_i chosen found
    rw [found] at best
    obtain ⟨_, chooses⟩ := best
    have ranked : ¬ ∀ target ∈ targets,
        ¬ 0.0 < (engine.compositeSimilarity state.mapping source target).value :=
      fun none => none chosen.target chooses.mem chooses.positive
    split
    · rename_i refused
      exact iff_of_true free (.inr ⟨chosen.target, chooses, refused⟩)
    · rename_i fits
      refine iff_of_false ?_ (not_or.mpr ⟨ranked, ?_⟩)
      · have recorded : (state.mapping.record
            (engine.offer state.mapping source chosen.target)).get? source = some _ :=
          Mapping.get?_record_of_none free
        exact fun missing => Option.some_ne_none _ (recorded.symm.trans missing)
      · rintro ⟨target, also, refused⟩
        exact fits (also.unique chooses ▸ refused)

-- The turn of one source leaves the correspondences of the others alone.
theorem get?_matchSource_of_ne (targets : List EntityId) (state : Matching) {other : EntityId}
    (apart : other ≠ source) :
    (engine.matchSource targets state source).value.mapping.get? other =
      state.mapping.get? other := by
  rcases engine.matchSource_records source targets state with
    same | ⟨target, found, matched, recorded⟩
  · rw [same]
  · obtain ⟨_, rfl⟩ := engine.pairSimilarity_eq_some state.mapping source target matched
    rw [recorded]
    exact Mapping.get?_record_of_ne apart

/-! ## A run -/

/-- What a run from the empty mapping has come to when some sources have had their turn. -/
def afterTurns (engine : Engine) (targets turns : List EntityId) : Matching :=
  turns.foldl (fun state source => (engine.matchSource targets state source).value)
    { mapping := .empty }

/-- The mapping that a source finds at its turn. -/
def mappingAt (engine : Engine) (sources targets : List EntityId) (source : EntityId) : Mapping :=
  (engine.afterTurns targets
    ((engine.model.superclassFirstOrder sources).takeWhile (· != source))).mapping

theorem matchModels_eq_afterTurns (engine : Engine) (sources targets : List EntityId) :
    (engine.matchModels .empty sources targets).value =
      engine.afterTurns targets (engine.model.superclassFirstOrder sources) := by
  unfold matchModels
  simp only [Noted.value_bind, Noted.value_pure, Noted.value_foldlM]
  rfl

/-- What holds while sources take their turns: as many are counted as are recorded, each was visited
and is recorded once, and what it is given is among the targets. -/
structure TurnsCounted (targets done : List EntityId) (state : Matching) : Prop where
  counted : state.matched = state.mapping.size
  visited : state.mapping.sources ⊆ done
  once : state.mapping.sources.Nodup
  listed : ∀ entry ∈ state.mapping.entries, entry.target ∈ targets

theorem TurnsCounted.waits {targets done : List EntityId} {state : Matching}
    (soFar : TurnsCounted targets done state) (source : EntityId) :
    TurnsCounted targets (done ++ [source]) state :=
  ⟨soFar.counted, List.subset_append_of_subset_left _ soFar.visited, soFar.once, soFar.listed⟩

theorem TurnsCounted.records {targets done : List EntityId} {state : Matching}
    (soFar : TurnsCounted targets done state) (found : EntityMatch)
    (free : state.mapping.get? found.source = none) (member : found.target ∈ targets) :
    TurnsCounted targets (done ++ [found.source])
      ⟨state.mapping.record found, state.matched + 1⟩ where
  counted := by
    have longer : (state.mapping.record found).sources = state.mapping.sources ++ [found.source] := by
      rw [Mapping.sources_record, if_neg (Mapping.get?_eq_none_iff.mp free)]
    have lengths := congrArg List.length longer
    simpa [Mapping.size, soFar.counted] using lengths.symm
  visited := Mapping.sources_record_subset soFar.visited
  once := Mapping.nodup_sources_record soFar.once
  listed := by
    intro entry recorded
    rcases Mapping.mem_record recorded with rfl | earlier
    · exact member
    · exact soFar.listed entry earlier

theorem TurnsCounted.step {targets done : List EntityId} {state : Matching}
    (soFar : TurnsCounted targets done state) (fresh : source ∉ done) :
    TurnsCounted targets (done ++ [source]) (engine.matchSource targets state source).value := by
  have free : state.mapping.get? source = none :=
    Mapping.get?_eq_none_iff.mpr fun listed => fresh (soFar.visited listed)
  have best := engine.ranksBest_bestTarget state.mapping source targets
  rw [matchSource_of_free targets free]
  split
  · exact soFar.waits source
  · rename_i chosen found
    rw [found] at best
    split
    · exact soFar.waits source
    · exact soFar.records (engine.offer state.mapping source chosen.target) free best.2.mem

theorem turnsCounted_afterTurns (engine : Engine) (targets : List EntityId) {turns : List EntityId}
    (once : turns.Nodup) : TurnsCounted targets turns (engine.afterTurns targets turns) :=
  foldl_of_nodup (motive := TurnsCounted targets) once ⟨rfl, nofun, List.nodup_nil, nofun⟩
    fun _ _ _ _ fresh soFar => soFar.step fresh

-- What a source has after its turn it keeps, since the others have turns of their own.
theorem get?_afterTurns_of_not_mem (engine : Engine) (targets done rest : List EntityId)
    (absent : source ∉ rest) :
    (engine.afterTurns targets (done ++ rest)).mapping.get? source =
      (engine.afterTurns targets done).mapping.get? source := by
  unfold afterTurns
  rw [List.foldl_append]
  refine List.foldlRecOn (motive := fun state : Matching => state.mapping.get? source =
    (engine.afterTurns targets done).mapping.get? source) rest _ rfl ?_
  intro state soFar other member
  have apart : source ≠ other := by
    rintro rfl
    exact absent member
  rw [get?_matchSource_of_ne targets state apart, soFar]

/-- What a run has recorded, and why it left a source out. -/
structure Accounts (engine : Engine) (sources targets : List EntityId) (result : Matching) :
    Prop where
  counted : result.matched = result.mapping.size
  given : ∀ entry ∈ result.mapping.entries, entry.source ∈ sources ∧ entry.target ∈ targets
  once : result.mapping.sources.Nodup
  leftOut : ∀ source ∈ sources, result.mapping.get? source = none ↔
    (∀ target ∈ targets, ¬ 0.0 < (engine.compositeSimilarity
      (engine.mappingAt sources targets source) source target).value) ∨
    ∃ target, engine.Chooses (engine.mappingAt sources targets source) source targets target ∧
      engine.breaksHierarchy (engine.mappingAt sources targets source) source target = true

/-- Whatever sources and targets are given, repeated ones and cycles included: a run from the empty
mapping counts what it records, records given sources once and gives them given targets, and leaves a
source out exactly when, at its turn, no target has a positive rank or the pair with the chosen one is
refused. -/
theorem matchModels_accounts (engine : Engine) (sources targets : List EntityId) :
    engine.Accounts sources targets (engine.matchModels .empty sources targets).value := by
  have orderOnce := engine.model.nodup_superclassFirstOrder sources
  have run := engine.turnsCounted_afterTurns targets orderOnce
  rw [matchModels_eq_afterTurns]
  refine ⟨run.counted, fun entry member => ⟨?_, run.listed entry member⟩, run.once, ?_⟩
  · exact (engine.model.mem_superclassFirstOrder).mp
      (run.visited (List.mem_map_of_mem member))
  · intro source given
    obtain ⟨done, rest, split⟩ :=
      List.append_of_mem ((engine.model.mem_superclassFirstOrder).mpr given)
    rw [split] at orderOnce
    obtain ⟨doneOnce, restOnce, apart⟩ := List.nodup_append.mp orderOnce
    have before : ∀ other ∈ done, (other != source) = true :=
      fun other member => bne_iff_ne.mpr (apart other member source List.mem_cons_self)
    have found : engine.mappingAt sources targets source =
        (engine.afterTurns targets done).mapping := by
      rw [mappingAt, split, List.takeWhile_append_of_pos before]
      simp
    have free : (engine.afterTurns targets done).mapping.get? source = none :=
      Mapping.get?_eq_none_iff.mpr fun listed =>
        apart source ((engine.turnsCounted_afterTurns targets doneOnce).visited listed) source
          List.mem_cons_self rfl
    have turn : (engine.afterTurns targets (done ++ [source])) =
        (engine.matchSource targets (engine.afterTurns targets done) source).value := by
      simp [afterTurns]
    have kept := engine.get?_afterTurns_of_not_mem targets (done ++ [source]) rest
      (List.nodup_cons.mp restOnce).1
    rw [List.append_assoc, List.singleton_append, turn] at kept
    rw [split, kept, found]
    exact unmatched_iff targets free

end Engine

end ClassModel
