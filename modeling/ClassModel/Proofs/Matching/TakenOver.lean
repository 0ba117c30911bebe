import ClassModel.Proofs.Inheritance.Agreement
import ClassModel.Proofs.Inheritance.Precedence
import ClassModel.Proofs.Matching.Runs

/-! What strict runs take over from superclasses.

A superclass is visited before its subclasses, and what is recorded for it does not change after its
turn. So a subclass begins with everything its superclass is left with at the end.
-/

set_option autoImplicit false

namespace ClassModel

/-- A pair of features as a subclass has it from its superclass. -/
def FeatureMatch.takenOver (pair : FeatureMatch) : FeatureMatch :=
  { pair with kind := .inherited, score := 1.0 }

/-- A correspondence begins with the pairs of another one, all of them and in their order. -/
def EntityMatch.TakesOver (lower upper : EntityMatch) : Prop :=
  upper.featureMatches.map FeatureMatch.takenOver <+: lower.featureMatches

theorem EntityMatch.TakesOver.trans {lower middle upper : EntityMatch}
    (below : lower.TakesOver middle) (above : middle.TakesOver upper) : lower.TakesOver upper := by
  -- A pair that is taken over twice is the pair that is taken over once.
  have again : (upper.featureMatches.map FeatureMatch.takenOver).map FeatureMatch.takenOver =
      upper.featureMatches.map FeatureMatch.takenOver := by
    rw [List.map_map]
    rfl
  have moved := above.map FeatureMatch.takenOver
  rw [again] at moved
  exact moved.trans below

namespace Model

/-- A generalization link between given entities, also of one with itself. -/
structure GivenLink (model : Model) (members : List EntityId) (parent child : EntityId) : Prop where
  parentGiven : parent ∈ members
  childGiven : child ∈ members
  named : parent ∈ model.allParents child

/-- A mapped entity and its superclass, which is mapped as well. -/
structure MappedLink (model : Model) (mapping : Mapping) (parent child : EntityId) : Prop where
  superclass : model.superclass child = some parent
  parentMapped : mapping.get? parent ≠ none
  childMapped : mapping.get? child ≠ none

variable {model : Model} {mapping : Mapping}

/-- Whoever is mapped begins with what its superclass has, if that is mapped as well. -/
def TakesOver (model : Model) (mapping : Mapping) : Prop :=
  ∀ parent child upper lower, model.superclass child = some parent →
    mapping.get? parent = some upper → mapping.get? child = some lower → lower.TakesOver upper

theorem TakesOver.ofChain (takesOver : model.TakesOver mapping) {ancestor id : EntityId}
    (chain : Relation.TransGen (model.MappedLink mapping) ancestor id) {upper lower : EntityMatch}
    (upperMapped : mapping.get? ancestor = some upper) (lowerMapped : mapping.get? id = some lower) :
    lower.TakesOver upper := by
  induction chain generalizing lower with
  | single link => exact takesOver _ _ _ _ link.superclass upperMapped lowerMapped
  | tail _ link ih =>
    obtain ⟨middle, middleMapped⟩ := Option.ne_none_iff_exists'.mp link.parentMapped
    exact (takesOver _ _ _ _ link.superclass middleMapped lowerMapped).trans (ih middleMapped)

end Model

namespace Engine

variable {engine : Engine} {mapping : Mapping} {source target : EntityId}

/-! ## One source -/

theorem takesOver_of_pairSimilarity (strict : engine.options.strict = true) {parent : EntityId}
    {upper found : EntityMatch} (superclass : engine.model.superclass source = some parent)
    (mapped : mapping.get? parent = some upper)
    (matched : (engine.pairSimilarity mapping source target).value = some found) :
    found.TakesOver upper := by
  obtain ⟨_, rfl⟩ := engine.pairSimilarity_eq_some mapping source target matched
  have inherited : engine.inheritedMatches mapping source =
      upper.featureMatches.map FeatureMatch.takenOver := by
    simp only [inheritedMatches, strict, superclass, mapped, Option.bind_some, if_true]
    rfl
  have grown := grows_runStages (engine.comparison mapping) (engine.stages mapping source target)
    ⟨engine.inheritedMatches mapping source⟩
  rw [EntityMatch.TakesOver, featureMatches_scorePair, ← inherited]
  exact grown.startsWith

/-! ## Runs -/

/-- Only visited sources are mapped, and those begin with what their superclasses have. -/
structure VisitedTakesOver (engine : Engine) (done : List EntityId) (mapping : Mapping) :
    Prop where
  visited : mapping.sources ⊆ done
  takesOver : engine.model.TakesOver mapping

-- No visited entity has the new one as its superclass, so none was visited too early.
theorem VisitedTakesOver.step (strict : engine.options.strict = true)
    {done targets : List EntityId} {state : Matching}
    (soFar : engine.VisitedTakesOver done state.mapping) (fresh : source ∉ done)
    (behind : ∀ child ∈ done ++ [source], engine.model.superclass child ≠ some source) :
    engine.VisitedTakesOver (done ++ [source])
      (engine.matchSource targets state source).value.mapping := by
  rcases engine.matchSource_records source targets state with
    same | ⟨target, found, matched, recorded⟩
  · rw [same]
    exact ⟨List.subset_append_of_subset_left _ soFar.visited, soFar.takesOver⟩
  · obtain rfl : found.source = source := by
      obtain ⟨_, rfl⟩ := engine.pairSimilarity_eq_some state.mapping source target matched
      rfl
    have free : state.mapping.get? found.source = none :=
      Mapping.get?_eq_none_iff.mpr fun listed => fresh (soFar.visited listed)
    rw [recorded]
    refine ⟨Mapping.sources_record_subset soFar.visited, ?_⟩
    intro parent child upper lower superclass upperMapped lowerMapped
    by_cases parentHere : parent = found.source
    · subst parentHere
      have mapped := Mapping.mem_sources_of_get? lowerMapped
      exact absurd superclass (behind child (Mapping.sources_record_subset soFar.visited mapped))
    · rw [Mapping.get?_record_of_ne parentHere] at upperMapped
      by_cases childHere : child = found.source
      · subst childHere
        rw [Mapping.get?_record_of_none free] at lowerMapped
        obtain rfl := Option.some.inj lowerMapped
        exact takesOver_of_pairSimilarity strict superclass upperMapped matched
      · rw [Mapping.get?_record_of_ne childHere] at lowerMapped
        exact soFar.takesOver parent child upper lower superclass upperMapped lowerMapped

section

variable (reachable : engine.model.Reachable) (strict : engine.options.strict = true)
  {sources : List EntityId} (once : sources.Nodup)
  (acyclic : ∀ id, ¬ Relation.TransGen (engine.model.GivenLink sources) id id)
  (targets : List EntityId)

include reachable strict once acyclic

theorem matchModels_visitedTakesOver :
    engine.VisitedTakesOver (engine.model.superclassFirstOrder sources)
      (engine.matchModels .empty sources targets).value.mapping := by
  have given : engine.model.LinkAmong sources ≤ engine.model.GivenLink sources :=
    fun _ _ link => ⟨link.parentGiven, link.childGiven, link.named⟩
  have ordered := Model.pairwise_superclassFirstOrder reachable.linksSound.agree once
    fun id cycle => acyclic id (Relation.TransGen.mono given id id cycle)
  have orderOnce := engine.model.nodup_superclassFirstOrder sources
  have listed : ∀ id, id ∈ engine.model.superclassFirstOrder sources → id ∈ sources :=
    fun _ => (engine.model.mem_superclassFirstOrder).mp
  rw [mapping_matchModels]
  refine foldl_of_split (motive := fun done (state : Matching) =>
    engine.VisitedTakesOver done state.mapping) ⟨nofun, nofun⟩ ?_
  intro done source rest state split soFar
  rw [split] at ordered orderOnce listed
  have fresh : source ∉ done := fun early =>
    (List.nodup_append.mp orderOnce).2.2 source early source List.mem_cons_self rfl
  have sourceGiven := listed source (List.mem_append_right _ List.mem_cons_self)
  refine soFar.step strict fresh fun child member superclass => ?_
  have named : source ∈ engine.model.allParents child :=
    (engine.model.mem_allParents source child).mpr (.inl superclass)
  rcases List.mem_append.mp member with early | last
  · have apart : source ≠ child := fun same => fresh (same ▸ early)
    have childGiven := listed child (List.mem_append_left _ early)
    exact (List.pairwise_append.mp ordered).2.2 child early source List.mem_cons_self
      ⟨sourceGiven, childGiven, apart, named⟩
  · obtain rfl := List.mem_singleton.mp last
    exact acyclic child (.single ⟨sourceGiven, sourceGiven, named⟩)

/-- After a strict run over sources without cycles, every correspondence begins with the pairs of
its superclass, and so with those of all ancestors that a chain of mapped superclasses reaches. -/
theorem matchModels_takesOver :
    engine.model.TakesOver (engine.matchModels .empty sources targets).value.mapping ∧
      ∀ ancestor id upper lower,
        Relation.TransGen (engine.model.MappedLink
          (engine.matchModels .empty sources targets).value.mapping) ancestor id →
        (engine.matchModels .empty sources targets).value.mapping.get? ancestor = some upper →
        (engine.matchModels .empty sources targets).value.mapping.get? id = some lower →
        lower.TakesOver upper := by
  have run := matchModels_visitedTakesOver reachable strict once acyclic targets
  exact ⟨run.takesOver, fun _ _ _ _ chain => run.takesOver.ofChain chain⟩

end

end Engine

/-- A chain of three entities, and entities of the same names and features without links. -/
def pupils : Engine where
  model := [Edit.insertEntity (.named "Party"), .insertEntity (.named "Person"),
    .insertEntity (.named "Pupil"), .insertEntity (.named "Party"), .insertEntity (.named "Person"),
    .insertEntity (.named "Pupil"), .setSuperclass ⟨1⟩ (some ⟨0⟩), .setSuperclass ⟨2⟩ (some ⟨1⟩),
    .attachAttribute ⟨0⟩ { name := "id", type := .primitive "int", owner := ⟨0⟩ },
    .attachAttribute ⟨1⟩ { name := "name", type := .primitive "String", owner := ⟨1⟩ },
    .attachAttribute ⟨3⟩ { name := "id", type := .primitive "int", owner := ⟨3⟩ },
    .attachAttribute ⟨4⟩ { name := "name", type := .primitive "String", owner := ⟨4⟩ }].foldl
      Edit.apply .empty
  known := [⟨0⟩, ⟨1⟩, ⟨2⟩, ⟨3⟩, ⟨4⟩, ⟨5⟩]

def pupilsMapping : Mapping :=
  (pupils.matchModels .empty [⟨2⟩, ⟨0⟩, ⟨1⟩] [⟨3⟩, ⟨4⟩, ⟨5⟩]).value.mapping

/-- The pupil, which has no features, gets those of the person and, through it, of the party. -/
theorem matchModels_pupils :
    pupils.model.Reachable ∧ pupils.options.strict = true ∧
      (∀ id, ¬ Relation.TransGen (pupils.model.GivenLink [⟨2⟩, ⟨0⟩, ⟨1⟩]) id id) ∧
      pupilsMapping.entries.map (fun entry => entry.featureMatches.map (·.source.name)) =
        [["id"], ["id", "name"], ["id", "name"]] ∧
      ∃ party pupil, pupilsMapping.get? ⟨0⟩ = some party ∧ pupilsMapping.get? ⟨2⟩ = some pupil ∧
        pupil.TakesOver party := by
  have reachable : pupils.model.Reachable :=
    Model.Reachable.empty.of_leads (Model.EditsFit.leads (by decide))
  have later : ∀ parent ∈ [⟨2⟩, ⟨0⟩, ⟨1⟩], ∀ child ∈ [⟨2⟩, ⟨0⟩, ⟨1⟩],
      parent ∈ pupils.model.allParents child → parent.index < child.index := by decide
  have acyclic := Model.not_transGen_of_lt
    fun parent child (link : pupils.model.GivenLink [⟨2⟩, ⟨0⟩, ⟨1⟩] parent child) =>
      later parent link.parentGiven child link.childGiven link.named
  have mapped : ∀ id ∈ [⟨0⟩, ⟨1⟩, ⟨2⟩], ∃ entry, pupilsMapping.get? id = some entry := by
    simp only [← Option.isSome_iff_exists]
    decide +kernel
  obtain ⟨party, partyMapped⟩ := mapped ⟨0⟩ (by decide)
  obtain ⟨person, personMapped⟩ := mapped ⟨1⟩ (by decide)
  obtain ⟨pupil, pupilMapped⟩ := mapped ⟨2⟩ (by decide)
  have first : pupils.model.MappedLink pupilsMapping ⟨0⟩ ⟨1⟩ :=
    ⟨by decide, partyMapped ▸ Option.some_ne_none _, personMapped ▸ Option.some_ne_none _⟩
  have second : pupils.model.MappedLink pupilsMapping ⟨1⟩ ⟨2⟩ :=
    ⟨by decide, personMapped ▸ Option.some_ne_none _, pupilMapped ▸ Option.some_ne_none _⟩
  refine ⟨reachable, rfl, acyclic, by decide +kernel, party, pupil, partyMapped, pupilMapped, ?_⟩
  exact (Engine.matchModels_takesOver reachable rfl (by decide) acyclic
    [⟨3⟩, ⟨4⟩, ⟨5⟩]).2 ⟨0⟩ ⟨2⟩ party pupil (.tail (.single first) second) partyMapped pupilMapped

end ClassModel
