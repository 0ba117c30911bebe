import ClassModel.Entity
import ClassModel.Proofs.Text.Lowercase

/-! Entities rebuilt from their stereotypes.

The stereotypes of an entity name its role, its provenance and its capabilities and repeat its tags.
A tag is never read as one of the other words, since it is what is left of a text that was none of
them. So the stereotypes, applied in their order to a fresh entity, give back everything they stand
for.
-/

set_option autoImplicit false

namespace ClassModel

/-! ## Words that are tags -/

/-- The word is kept as a tag, spelled as it is. -/
def IsTag (word : String) : Prop := Stereotype.ofText word = .tag word

theorem Stereotype.ofText_lowercase_trim (text : String) :
    Stereotype.ofText (Text.lowercase (Text.trim text)) = Stereotype.ofText text := by
  unfold Stereotype.ofText
  rw [Text.lowercase_trim_twice]

theorem Stereotype.eq_of_ofText_eq_tag {text word : String}
    (tagged : Stereotype.ofText text = .tag word) : word = Text.lowercase (Text.trim text) := by
  unfold Stereotype.ofText at tagged
  generalize Text.lowercase (Text.trim text) = key at tagged ⊢
  split at tagged <;> cases tagged
  rfl

/-- What a text leaves as a tag is a tag by itself. -/
theorem IsTag.of_ofText {text word : String} (tagged : Stereotype.ofText text = .tag word) :
    IsTag word := by
  have key := Stereotype.eq_of_ofText_eq_tag tagged
  rw [IsTag, key, Stereotype.ofText_lowercase_trim, tagged, key]

namespace Entity

/-! ## Described entities -/

/-- The entity was fresh once; since then stereotypes have been applied to it, and its role and its
provenance have been set. -/
inductive Described : Entity → Prop where
  | fresh (name : String) : Described (named name)
  | applied {entity : Entity} (text : String) : Described entity →
      Described (entity.applyStereotype text)
  | setRole {entity : Entity} (role : EntityRole) : Described entity →
      Described { entity with role }
  | setProvenance {entity : Entity} (provenance : Provenance) : Described entity →
      Described { entity with provenance }

/-- The tags are words that are tags, none of them twice. -/
structure TagsKept (entity : Entity) : Prop where
  words : ∀ word ∈ entity.tags, IsTag word
  once : entity.tags.Nodup

theorem TagsKept.applyStereotype {entity : Entity} (kept : entity.TagsKept) (text : String) :
    (entity.applyStereotype text).TagsKept := by
  rw [Entity.applyStereotype]
  cases tagged : Stereotype.ofText text with
  | role role => exact ⟨kept.words, kept.once⟩
  | provenance provenance => exact ⟨kept.words, kept.once⟩
  | capability capability => exact ⟨kept.words, kept.once⟩
  | tag word =>
    by_cases present : word ∈ entity.tags
    · simpa only [apply, if_pos present] using kept
    · simp only [apply, if_neg present]
      constructor
      · intro other member
        rcases List.mem_append.1 member with old | new
        · exact kept.words other old
        · rw [List.mem_singleton.1 new]
          exact IsTag.of_ofText tagged
      · rw [List.nodup_append]
        refine ⟨kept.once, by simp, ?_⟩
        rintro old member new added rfl
        exact present (List.mem_singleton.1 added ▸ member)

theorem Described.tagsKept {entity : Entity} (described : entity.Described) :
    entity.TagsKept := by
  induction described with
  | fresh name => exact ⟨by simp [named], by simp [named]⟩
  | applied text _ kept => exact kept.applyStereotype text
  | setRole role _ kept => exact ⟨kept.words, kept.once⟩
  | setProvenance provenance _ kept => exact ⟨kept.words, kept.once⟩

/-! ## Stereotypes applied again -/

/-- The words that set a role. A fresh entity is concrete already. -/
def roleWords : EntityRole → List String
  | .concrete => []
  | .abstract => ["abstract"]
  | .interface => ["interface"]

/-- The words that set a provenance. A fresh entity is shared already. -/
def provenanceWords : Provenance → List String
  | .shared => []
  | .source => ["source"]
  | .target => ["target"]

theorem stereotypes_eq (entity : Entity) :
    entity.stereotypes = roleWords entity.role ++ (provenanceWords entity.provenance ++
      ((Capability.all.filter entity.capabilities.has).map Capability.label ++ entity.tags)) := by
  rw [stereotypes, List.append_assoc, List.append_assoc]
  rfl

theorem foldl_applyStereotype_roleWords (entity : Entity) (concrete : entity.role = .concrete)
    (role : EntityRole) : (roleWords role).foldl applyStereotype entity = { entity with role } := by
  have readAbstract : Stereotype.ofText "abstract" = .role .abstract := by decide +kernel
  have readInterface : Stereotype.ofText "interface" = .role .interface := by decide +kernel
  cases role with
  | concrete =>
    cases entity
    cases concrete
    rfl
  | abstract => rw [roleWords, List.foldl_cons, applyStereotype, readAbstract]; rfl
  | interface => rw [roleWords, List.foldl_cons, applyStereotype, readInterface]; rfl

theorem foldl_applyStereotype_provenanceWords (entity : Entity)
    (shared : entity.provenance = .shared) (provenance : Provenance) :
    (provenanceWords provenance).foldl applyStereotype entity = { entity with provenance } := by
  have readSource : Stereotype.ofText "source" = .provenance .source := by decide +kernel
  have readTarget : Stereotype.ofText "target" = .provenance .target := by decide +kernel
  cases provenance with
  | shared =>
    cases entity
    cases shared
    rfl
  | source => rw [provenanceWords, List.foldl_cons, applyStereotype, readSource]; rfl
  | target => rw [provenanceWords, List.foldl_cons, applyStereotype, readTarget]; rfl

theorem foldl_applyStereotype_labels (entity : Entity) (granted : List Capability) :
    (granted.map Capability.label).foldl applyStereotype entity =
      { entity with capabilities := granted.foldl Capabilities.grant entity.capabilities } := by
  induction granted generalizing entity with
  | nil => rfl
  | cons first rest ih =>
    have read : Stereotype.ofText first.label = .capability first := by
      cases first <;> decide +kernel
    rw [List.map_cons, List.foldl_cons, List.foldl_cons, applyStereotype, read, ih]
    rfl

/-- Granting what a set of capabilities has makes the same set. -/
theorem foldl_grant_has (capabilities : Capabilities) :
    (Capability.all.filter capabilities.has).foldl Capabilities.grant {} = capabilities := by
  obtain ⟨leaf, active, singleton, external, derived⟩ := capabilities
  cases leaf <;> cases active <;> cases singleton <;> cases external <;> cases derived <;> rfl

theorem foldl_applyStereotype_granted (entity : Entity) (bare : entity.capabilities = {})
    (capabilities : Capabilities) :
    ((Capability.all.filter capabilities.has).map Capability.label).foldl applyStereotype entity =
      { entity with capabilities } := by
  rw [foldl_applyStereotype_labels, bare, foldl_grant_has]

theorem foldl_applyStereotype_tags (entity : Entity) (words : List String)
    (tags : ∀ word ∈ words, IsTag word) (once : (entity.tags ++ words).Nodup) :
    words.foldl applyStereotype entity = { entity with tags := entity.tags ++ words } := by
  induction words generalizing entity with
  | nil => rw [List.append_nil]; rfl
  | cons word rest ih =>
    have tagged : Stereotype.ofText word = .tag word := tags word List.mem_cons_self
    have new : word ∉ entity.tags :=
      fun old => (List.nodup_append.1 once).2.2 word old word List.mem_cons_self rfl
    have step : entity.applyStereotype word = { entity with tags := entity.tags ++ [word] } := by
      rw [applyStereotype, tagged, apply, if_neg new]
    rw [List.foldl_cons, step, ih _ (fun other member => tags other (.tail _ member)) (by simpa)]
    simp

/-- The stereotypes of a described entity, applied to a fresh entity in their order, give it the
same role, provenance, capabilities and tags, and nothing else. -/
theorem Described.foldl_stereotypes {entity : Entity} (described : entity.Described)
    (name : String) :
    entity.stereotypes.foldl applyStereotype (named name) =
      { named name with
        role := entity.role, provenance := entity.provenance,
        capabilities := entity.capabilities, tags := entity.tags } := by
  obtain ⟨words, once⟩ := described.tagsKept
  -- Each group of words finds the fields it sets as they are in a fresh entity.
  have byRole : (roleWords entity.role).foldl applyStereotype (named name) =
      { named name with role := entity.role } :=
    foldl_applyStereotype_roleWords _ rfl _
  have byProvenance : (provenanceWords entity.provenance).foldl applyStereotype
      { named name with role := entity.role } =
      { named name with role := entity.role, provenance := entity.provenance } :=
    foldl_applyStereotype_provenanceWords _ rfl _
  have byLabels : ((Capability.all.filter entity.capabilities.has).map Capability.label).foldl
      applyStereotype { named name with role := entity.role, provenance := entity.provenance } =
      { named name with
        role := entity.role, provenance := entity.provenance,
        capabilities := entity.capabilities } :=
    foldl_applyStereotype_granted _ rfl _
  rw [stereotypes_eq, List.foldl_append, List.foldl_append, List.foldl_append, byRole,
    byProvenance, byLabels]
  exact foldl_applyStereotype_tags _ _ words once

/-- An abstract entity of the source that was called a target before. -/
def wandering : Entity :=
  { ((((named "Customer").applyStereotype "target").applyStereotype "Persistent ").applyStereotype
    " ABSTRACT") with provenance := .source }

theorem wandering_described : wandering.Described :=
  .setProvenance .source (.applied _ (.applied _ (.applied _ (.fresh "Customer"))))

theorem Described.foldl_stereotypes_wandering :
    wandering.Described ∧
      wandering.stereotypes.foldl applyStereotype (named "Client") =
        { named "Client" with
          role := .abstract, provenance := .source, tags := ["persistent"] } := by
  refine ⟨wandering_described, ?_⟩
  rw [Described.foldl_stereotypes wandering_described "Client"]
  decide +kernel

end Entity

end ClassModel
