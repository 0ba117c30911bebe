import ClassModel.Matching.Engine

/-! What passes over features achieve.

A pass only adds pairs, and only of features that nothing is paired with yet. So what is left over
at the end was left over all the time, and every pass has looked at it.
-/

set_option autoImplicit false

namespace ClassModel

/-- No pair uses the path of this source feature. -/
def SourceLeft (pairs : List FeatureMatch) (source : Feature) : Prop :=
  ∀ pair ∈ pairs, pair.source.path ≠ source.path

def TargetLeft (pairs : List FeatureMatch) (target : Feature) : Prop :=
  ∀ pair ∈ pairs, pair.target.path ≠ target.path

/-- No two pairs share a source or a target. -/
structure OneToOne (pairs : List FeatureMatch) : Prop where
  sources : (pairs.map fun pair => pair.source.path).Nodup
  targets : (pairs.map fun pair => pair.target.path).Nodup

theorem OneToOne.nil : OneToOne [] := ⟨List.nodup_nil, List.nodup_nil⟩

theorem OneToOne.add {pairs : List FeatureMatch} {pair : FeatureMatch} (apart : OneToOne pairs)
    (source : SourceLeft pairs pair.source) (target : TargetLeft pairs pair.target) :
    OneToOne (pairs ++ [pair]) := by
  -- One argument for both ends: the key of the new pair is not among the earlier ones.
  have nodup : ∀ key : FeatureMatch → Path, (pairs.map key).Nodup →
      (∀ earlier ∈ pairs, key earlier ≠ key pair) → ((pairs ++ [pair]).map key).Nodup := by
    intro key earlier new
    rw [List.map_append, List.nodup_append]
    refine ⟨earlier, by simp, ?_⟩
    intro used member added same
    obtain ⟨other, listed, rfl⟩ := List.mem_map.mp member
    obtain rfl := List.mem_singleton.mp same
    exact new other listed
  exact ⟨nodup _ apart.sources source, nodup _ apart.targets target⟩

namespace Pairing

theorem sourceFree_iff (pairing : Pairing) (source : Feature) :
    pairing.sourceFree source = true ↔ SourceLeft pairing.found source := by
  simp [sourceFree, SourceLeft]

theorem targetFree_iff (pairing : Pairing) (target : Feature) :
    pairing.targetFree target = true ↔ TargetLeft pairing.found target := by
  simp [targetFree, TargetLeft]

/-- From one pairing to another by pairs of features that are left, all of them allowed. -/
inductive Grows (Allowed : FeatureMatch → Prop) (start : Pairing) : Pairing → Prop where
  | refl : Grows Allowed start start
  | add {pairing : Pairing} {pair : FeatureMatch} :
      Grows Allowed start pairing → SourceLeft pairing.found pair.source →
      TargetLeft pairing.found pair.target → Allowed pair →
      Grows Allowed start (pairing.add pair)

namespace Grows

variable {Allowed : FeatureMatch → Prop} {start pairing final : Pairing}

theorem trans (earlier : Grows Allowed start pairing) (later : Grows Allowed pairing final) :
    Grows Allowed start final := by
  induction later with
  | refl => exact earlier
  | add _ source target allowed ih => exact .add ih source target allowed

theorem weaken {Weaker : FeatureMatch → Prop} (grown : Grows Allowed start final)
    (weaker : ∀ pair, Allowed pair → Weaker pair) : Grows Weaker start final := by
  induction grown with
  | refl => exact .refl
  | add _ source target allowed ih => exact .add ih source target (weaker _ allowed)

-- What is added is added while its features are left, so they were left at the start as well.
theorem beyond (grown : Grows Allowed start final) : ∃ further,
    final.found = start.found ++ further ∧ ∀ pair ∈ further, Allowed pair ∧
      SourceLeft start.found pair.source ∧ TargetLeft start.found pair.target := by
  induction grown with
  | refl => exact ⟨[], by simp, by simp⟩
  | @add pairing pair _ source target allowed ih =>
    obtain ⟨further, same, each⟩ := ih
    have kept : ∀ earlier ∈ start.found, earlier ∈ pairing.found :=
      fun earlier member => same ▸ List.mem_append_left _ member
    refine ⟨further ++ [pair], by simp [Pairing.add, same], ?_⟩
    refine List.forall_mem_append.mpr ⟨each, List.forall_mem_singleton.mpr ⟨allowed, ?_, ?_⟩⟩
    · exact fun earlier member => source earlier (kept earlier member)
    · exact fun earlier member => target earlier (kept earlier member)

theorem startsWith (grown : Grows Allowed start final) : start.found <+: final.found := by
  obtain ⟨further, same, _⟩ := grown.beyond
  exact ⟨further, same.symm⟩

theorem kept (grown : Grows Allowed start final) :
    ∀ pair ∈ start.found, pair ∈ final.found :=
  fun _ member => grown.startsWith.subset member

-- A pair of the end was there at the start, or was found with features that were left then.
theorem mem_beyond (grown : Grows Allowed start final) {pair : FeatureMatch}
    (member : pair ∈ final.found) : pair ∈ start.found ∨
      Allowed pair ∧ SourceLeft start.found pair.source ∧ TargetLeft start.found pair.target := by
  obtain ⟨further, same, each⟩ := grown.beyond
  rw [same] at member
  exact (List.mem_append.mp member).imp_right (each pair)

theorem mem (grown : Grows Allowed start final) :
    ∀ pair ∈ final.found, pair ∈ start.found ∨ Allowed pair :=
  fun _ member => (grown.mem_beyond member).imp_right And.left

theorem sourceLeft (grown : Grows Allowed start final) {source : Feature}
    (left : SourceLeft final.found source) : SourceLeft start.found source :=
  fun pair member => left pair (grown.kept pair member)

theorem targetLeft (grown : Grows Allowed start final) {target : Feature}
    (left : TargetLeft final.found target) : TargetLeft start.found target :=
  fun pair member => left pair (grown.kept pair member)

theorem oneToOne (grown : Grows Allowed start final) (apart : OneToOne start.found) :
    OneToOne final.found := by
  induction grown with
  | refl => exact apart
  | add _ source target _ ih => exact ih.add source target

end Grows

end Pairing

/-! ## Choosing a partner -/

/-- How the types of the features that a pass pairs compare. -/
def Pass.wanted : Pass → TypeMatch
  | .exactName => .exact
  | .byType wanted _ => wanted

theorem Candidate.mem_of_best? {candidates : List Candidate} {best : Candidate}
    (chosen : Candidate.best? candidates = some best) : best ∈ candidates := by
  cases candidates with
  | nil => cases chosen
  | cons first rest =>
    obtain rfl := Option.some.inj chosen
    refine List.foldlRecOn (motive := fun best => best ∈ first :: rest) rest _
      List.mem_cons_self ?_
    intro best member next listed
    split
    · exact List.mem_cons_of_mem _ listed
    · exact member

theorem Candidate.eq_nil_of_best? {candidates : List Candidate}
    (none : Candidate.best? candidates = none) : candidates = [] := by
  cases candidates with
  | nil => rfl
  | cons first rest => cases none

namespace Comparison

variable {comparison : Comparison} {pairing : Pairing} {targets : List Feature} {source : Feature}

theorem mem_candidates {wanted : TypeMatch} {candidate : Candidate}
    (member : candidate ∈ comparison.candidates wanted pairing source targets) :
    candidate.target ∈ targets ∧ TargetLeft pairing.found candidate.target ∧
      comparison.typeMatch source.type candidate.target.type = wanted := by
  obtain ⟨target, kept, rfl⟩ := List.mem_map.mp member
  obtain ⟨listed, fits⟩ := List.mem_filter.mp kept
  simp only [Bool.and_eq_true, beq_iff_eq, pairing.targetFree_iff] at fits
  exact ⟨listed, fits⟩

theorem choose_sound {pass : Pass} {candidate : Candidate}
    (chosen : comparison.choose pass pairing targets source = some candidate) :
    candidate.target ∈ targets ∧ TargetLeft pairing.found candidate.target ∧
      comparison.typeMatch source.type candidate.target.type = pass.wanted := by
  cases pass with
  | exactName =>
    obtain ⟨target, found, rfl⟩ := Option.map_eq_some_iff.mp chosen
    have fits := List.find?_some found
    simp only [isExactPartner, isNamesake, Bool.and_eq_true, beq_iff_eq,
      pairing.targetFree_iff] at fits
    exact ⟨List.mem_of_find?_eq_some found, fits.1.1, fits.2⟩
  | byType wanted kind => exact mem_candidates (Candidate.mem_of_best? chosen)

-- A pass by type passes a source over only when no target is left for it.
theorem choose_complete {wanted : TypeMatch} {kind : MatchKind}
    (none : comparison.choose (.byType wanted kind) pairing targets source = none)
    {target : Feature} (listed : target ∈ targets) (left : TargetLeft pairing.found target) :
    comparison.typeMatch source.type target.type ≠ wanted := by
  intro fits
  have empty := Candidate.eq_nil_of_best? none
  simp only [candidates, List.map_eq_nil_iff, List.filter_eq_nil_iff] at empty
  apply empty target listed
  simp [(pairing.targetFree_iff target).mpr left, fits]

theorem value_pairSource (comparison : Comparison) (pass : Pass) (targets : List Feature)
    (pairing : Pairing) (source : Feature) :
    (comparison.pairSource pass targets pairing source).value =
      if pairing.sourceFree source then
        match comparison.choose pass pairing targets source with
        | some candidate => pairing.add ⟨source, candidate.target, pass.kind, candidate.score⟩
        | none => pairing
      else pairing := by
  unfold pairSource
  split
  · rw [Noted.value_bind]
    show Noted.value (match comparison.choose pass pairing targets source with
      | some candidate =>
        pairing.consume ⟨source, candidate.target, pass.kind, candidate.score⟩
      | none => pure pairing) = _
    cases comparison.choose pass pairing targets source <;> rfl
  · rfl

end Comparison

/-! ## Passes and stages -/

/-- No source that is left compares as wanted to a target that is left. -/
def Comparison.Settled (comparison : Comparison) (wanted : TypeMatch)
    (sources targets : List Feature) (pairs : List FeatureMatch) : Prop :=
  ∀ source ∈ sources, ∀ target ∈ targets, SourceLeft pairs source → TargetLeft pairs target →
    comparison.typeMatch source.type target.type ≠ wanted

-- Growing leaves fewer features, so what is settled stays settled.
theorem Comparison.Settled.grown {comparison : Comparison} {wanted : TypeMatch}
    {sources targets : List Feature} {Allowed : FeatureMatch → Prop} {pairing final : Pairing}
    (settled : comparison.Settled wanted sources targets pairing.found)
    (grown : Pairing.Grows Allowed pairing final) :
    comparison.Settled wanted sources targets final.found := by
  intro source listed target member sourceLeft targetLeft
  exact settled source listed target member (grown.sourceLeft sourceLeft)
    (grown.targetLeft targetLeft)

namespace Stage

/-- What a stage may pair. -/
structure Allows (stage : Stage) (comparison : Comparison) (pair : FeatureMatch) : Prop where
  source : pair.source ∈ stage.sources
  target : pair.target ∈ stage.targets
  kind : pair.kind = stage.pass.kind
  types : comparison.typeMatch pair.source.type pair.target.type = stage.pass.wanted

/-- The pairs a stage may find: each has a partner that is chosen while some features are left. -/
inductive Offers (stage : Stage) (comparison : Comparison) : FeatureMatch → Prop where
  | choice {pairing : Pairing} {source : Feature} {candidate : Candidate} :
      source ∈ stage.sources →
      comparison.choose stage.pass pairing stage.targets source = some candidate →
      Offers stage comparison ⟨source, candidate.target, stage.pass.kind, candidate.score⟩

theorem Offers.allows {stage : Stage} {comparison : Comparison} {pair : FeatureMatch}
    (offered : stage.Offers comparison pair) : stage.Allows comparison pair := by
  obtain ⟨listed, chosen⟩ := offered
  obtain ⟨member, -, types⟩ := Comparison.choose_sound chosen
  exact ⟨listed, member, rfl, types⟩

variable (stage : Stage) (comparison : Comparison) (pairing : Pairing)

theorem offers_pairSource {source : Feature} (listed : source ∈ stage.sources) :
    Pairing.Grows (stage.Offers comparison) pairing
      (comparison.pairSource stage.pass stage.targets pairing source).value := by
  rw [comparison.value_pairSource]
  split
  · rename_i free
    cases chosen : comparison.choose stage.pass pairing stage.targets source with
    | none => exact .refl
    | some candidate =>
      have left := (Comparison.choose_sound chosen).2.1
      exact .add .refl ((pairing.sourceFree_iff source).mp free) left (.choice listed chosen)
  · exact .refl

theorem offers_runPass : Pairing.Grows (stage.Offers comparison) pairing
    (comparison.runPass stage.pass stage.sources stage.targets pairing).value := by
  unfold Comparison.runPass
  rw [Noted.value_foldlM]
  refine List.foldlRecOn (motive := Pairing.Grows (stage.Offers comparison) pairing) stage.sources
    _ .refl ?_
  intro grownSoFar grown source listed
  exact grown.trans (stage.offers_pairSource comparison grownSoFar listed)

theorem grows_runPass : Pairing.Grows (stage.Allows comparison) pairing
    (comparison.runPass stage.pass stage.sources stage.targets pairing).value :=
  (stage.offers_runPass comparison pairing).weaken fun _ => Offers.allows

-- A source with a partner is paired at its turn, since a best candidate of several always exists.
theorem settled_pairSource (byType : stage.pass ≠ .exactName) {source target : Feature}
    (listed : target ∈ stage.targets)
    (sourceLeft : SourceLeft
      (comparison.pairSource stage.pass stage.targets pairing source).value.found source)
    (targetLeft : TargetLeft pairing.found target) :
    comparison.typeMatch source.type target.type ≠ stage.pass.wanted := by
  rw [comparison.value_pairSource] at sourceLeft
  split at sourceLeft
  · cases chosen : comparison.choose stage.pass pairing stage.targets source with
    | none =>
      cases pass : stage.pass with
      | exactName => exact absurd pass byType
      | byType wanted kind =>
        rw [pass] at chosen
        exact Comparison.choose_complete chosen listed targetLeft
    | some candidate =>
      rw [chosen] at sourceLeft
      exact absurd rfl (sourceLeft _ (List.mem_append_right _ List.mem_cons_self))
  · rename_i taken
    exact absurd ((pairing.sourceFree_iff source).mpr sourceLeft) taken

theorem settled_runPass (byType : stage.pass ≠ .exactName) :
    comparison.Settled stage.pass.wanted stage.sources stage.targets
      (comparison.runPass stage.pass stage.sources stage.targets pairing).value.found := by
  obtain ⟨pass, sources, targets⟩ := stage
  -- What is left in the end was left at every turn, so each source is settled at its own.
  induction sources generalizing pairing with
  | nil =>
    intro source listed
    cases listed
  | cons first rest ih =>
    have turn := offers_pairSource ⟨pass, first :: rest, targets⟩ comparison pairing
      List.mem_cons_self
    have later := grows_runPass ⟨pass, rest, targets⟩ comparison
      (comparison.pairSource pass targets pairing first).value
    intro source listed target member sourceLeft targetLeft
    rcases List.mem_cons.mp listed with rfl | waiting
    · exact settled_pairSource ⟨pass, source :: rest, targets⟩ comparison pairing byType member
        (later.sourceLeft sourceLeft) (turn.targetLeft (later.targetLeft targetLeft))
    · exact ih _ byType source waiting target member sourceLeft targetLeft

end Stage

namespace Engine

variable (comparison : Comparison) (stages : List Stage) (pairing : Pairing)

theorem value_runStages_cons (stage : Stage) :
    (runStages comparison (stage :: stages) pairing).value =
      (runStages comparison stages
        (comparison.runPass stage.pass stage.sources stage.targets pairing).value).value := by
  simp only [runStages, Noted.value_foldlM, List.foldl_cons]

theorem value_runStages_append (first last : List Stage) :
    (runStages comparison (first ++ last) pairing).value =
      (runStages comparison last (runStages comparison first pairing).value).value := by
  simp only [runStages, Noted.value_foldlM, List.foldl_append]

theorem offers_runStages :
    Pairing.Grows (fun pair => ∃ stage ∈ stages, stage.Offers comparison pair) pairing
      (runStages comparison stages pairing).value := by
  induction stages generalizing pairing with
  | nil => exact .refl
  | cons stage rest ih =>
    rw [value_runStages_cons]
    refine ((stage.offers_runPass comparison pairing).weaken ?_).trans ((ih _).weaken ?_)
    · intro pair offered
      exact ⟨stage, List.mem_cons_self, offered⟩
    · rintro pair ⟨later, member, offered⟩
      exact ⟨later, List.mem_cons_of_mem _ member, offered⟩

theorem grows_runStages : Pairing.Grows (fun pair => ∃ stage ∈ stages, stage.Allows comparison pair)
    pairing (runStages comparison stages pairing).value :=
  (offers_runStages comparison stages pairing).weaken
    fun _ ⟨stage, listed, offered⟩ => ⟨stage, listed, offered.allows⟩

theorem settled_runStages {stage : Stage} (listed : stage ∈ stages)
    (byType : stage.pass ≠ .exactName) :
    comparison.Settled stage.pass.wanted stage.sources stage.targets
      (runStages comparison stages pairing).value.found := by
  induction stages generalizing pairing with
  | nil => cases listed
  | cons first rest ih =>
    rw [value_runStages_cons]
    rcases List.mem_cons.mp listed with rfl | later
    · exact (stage.settled_runPass comparison pairing byType).grown
        (grows_runStages comparison rest _)
    · exact ih _ later

theorem settled_byType {wanted : TypeMatch} {kind : MatchKind} {sources targets : List Feature}
    (listed : ⟨.byType wanted kind, sources, targets⟩ ∈ stages) :
    comparison.Settled wanted sources targets (runStages comparison stages pairing).value.found :=
  settled_runStages comparison stages pairing listed nofun

end Engine

end ClassModel
