import ClassModel.Proofs.Inheritance.Order
import ClassModel.Proofs.Inheritance.Reachability
import ClassModel.Proofs.Matching.Runs
import ClassModel.Proofs.Model.Histories

/-! What a strict engine keeps of the hierarchy.

A pair is compared with the images of the subclasses that are mapped when it is its turn. Subclasses
that come later are compared with nothing, so a run respects the hierarchy only from the subclasses
it visits before their superclass.
-/

set_option autoImplicit false

namespace ClassModel

namespace Engine

variable {engine : Engine}

/-! ## One source -/

/-- The image of the lower entity is that of the upper one or below it. -/
def ImagesNested (model : Model) (mapping : Mapping) (lower upper : EntityId) : Prop :=
  ∀ lowerImage upperImage, mapping.targetOf? lower = some lowerImage →
    mapping.targetOf? upper = some upperImage →
      lowerImage = upperImage ∨ Relation.TransGen model.Down upperImage lowerImage

-- A strict engine refuses nothing else.
theorem breaksHierarchy_eq_false_iff (agree : engine.model.LinksAgree)
    (strict : engine.options.strict = true) {mapping : Mapping} {source : EntityId}
    (free : mapping.get? source = none) (target : EntityId) :
    engine.breaksHierarchy mapping source target = false ↔
      ∀ lower image, lower ≠ source → Relation.TransGen engine.model.Down source lower →
        mapping.targetOf? lower = some image →
          image = target ∨ Relation.TransGen engine.model.Down target image := by
  have images : engine.breaksHierarchy mapping source target =
      ((engine.model.descendants source).filterMap mapping.targetOf?).any fun image =>
        image != target && !engine.model.isDescendant image target := by
    simp [breaksHierarchy, strict, free]
  have nested : ∀ image, (image != target && !engine.model.isDescendant image target) = false ↔
      image = target ∨ Relation.TransGen engine.model.Down target image := by
    intro image
    rw [← Model.isDescendant_iff agree]
    by_cases same : image = target <;> simp [same]
  simp only [images, List.any_eq_false, Bool.not_eq_true, nested, List.mem_filterMap,
    Model.mem_descendants_iff agree]
  constructor
  · intro all lower image other below mapped
    exact all image ⟨lower, ⟨other, below⟩, mapped⟩
  · rintro all image ⟨lower, ⟨other, below⟩, mapped⟩
    exact all lower image other below mapped

theorem matchSource_cases (targets : List EntityId) (state : Matching) (source : EntityId) :
    (engine.matchSource targets state source).value.mapping = state.mapping ∨
      ∃ found : EntityMatch, found.source = source ∧
        engine.breaksHierarchy state.mapping source found.target = false ∧
        (engine.matchSource targets state source).value.mapping = state.mapping.record found := by
  rcases engine.matchSource_records source targets state with same | ⟨target, found, matched, recorded⟩
  · exact .inl same
  · obtain ⟨fits, rfl⟩ := engine.pairSimilarity_eq_some state.mapping source target matched
    exact .inr ⟨_, rfl, fits, recorded⟩

/-! ## Runs -/

/-- Among the sources that have been visited, the images of earlier ones below later ones are
nested, and nobody else is mapped. -/
structure VisitedNested (engine : Engine) (done : List EntityId) (mapping : Mapping) : Prop where
  visited : ∀ source, mapping.get? source ≠ none → source ∈ done
  nested : done.Pairwise fun earlier later =>
    Relation.TransGen engine.model.Down later earlier →
      ImagesNested engine.model mapping earlier later

section

variable {done : List EntityId} {mapping : Mapping} (soFar : engine.VisitedNested done mapping)
  {source : EntityId} (fresh : source ∉ done)

include soFar fresh

theorem VisitedNested.unmapped : mapping.get? source = none :=
  Classical.byContradiction fun mapped => fresh (soFar.visited source mapped)

theorem VisitedNested.leaveOut : engine.VisitedNested (done ++ [source]) mapping := by
  have free := soFar.unmapped fresh
  refine ⟨fun other mapped => List.mem_append_left _ (soFar.visited other mapped), ?_⟩
  refine List.pairwise_append.mpr ⟨soFar.nested, List.pairwise_singleton _ _, ?_⟩
  intro earlier _ later last below lowerImage upperImage _ mapped
  obtain rfl := List.mem_singleton.mp last
  simp [Mapping.targetOf?, free] at mapped

-- What was compared are the images of those that were visited, since nobody else has one.
theorem VisitedNested.record (agree : engine.model.LinksAgree)
    (strict : engine.options.strict = true) {found : EntityMatch} (offered : found.source = source)
    (fits : engine.breaksHierarchy mapping source found.target = false) :
    engine.VisitedNested (done ++ [source]) (mapping.record found) := by
  have free := soFar.unmapped fresh
  subst offered
  have others : ∀ other, other ≠ found.source →
      (mapping.record found).targetOf? other = mapping.targetOf? other := by
    intro other apart
    rw [Mapping.targetOf?, Mapping.get?_record_of_ne apart, ← Mapping.targetOf?]
  have own : (mapping.record found).targetOf? found.source = some found.target := by
    rw [Mapping.targetOf?, Mapping.get?_record_of_none free, Option.map_some]
  have different : ∀ earlier ∈ done, earlier ≠ found.source := by
    rintro earlier among rfl
    exact fresh among
  constructor
  case visited =>
    intro other mapped
    by_cases here : other = found.source
    · simp [here]
    · rw [Mapping.get?_record_of_ne here] at mapped
      exact List.mem_append_left _ (soFar.visited other mapped)
  case nested =>
    refine List.pairwise_append.mpr ⟨?_, List.pairwise_singleton _ _, ?_⟩
    · refine soFar.nested.imp_of_mem fun {earlier later} among amongToo nested below => ?_
      intro lowerImage upperImage lowerMapped upperMapped
      rw [others _ (different _ among)] at lowerMapped
      rw [others _ (different _ amongToo)] at upperMapped
      exact nested below lowerImage upperImage lowerMapped upperMapped
    · intro earlier among later last below lowerImage upperImage lowerMapped upperMapped
      obtain rfl := List.mem_singleton.mp last
      rw [others _ (different _ among)] at lowerMapped
      obtain rfl := Option.some.inj (own.symm.trans upperMapped)
      exact (breaksHierarchy_eq_false_iff agree strict free found.target).mp fits earlier
        lowerImage (different _ among) below lowerMapped

end

theorem VisitedNested.step (agree : engine.model.LinksAgree) (strict : engine.options.strict = true)
    {done targets : List EntityId} {state : Matching}
    (soFar : engine.VisitedNested done state.mapping) {source : EntityId} (fresh : source ∉ done) :
    engine.VisitedNested (done ++ [source])
      (engine.matchSource targets state source).value.mapping := by
  rcases engine.matchSource_cases targets state source with same | ⟨found, offered, fits, recorded⟩
  · rw [same]
    exact soFar.leaveOut fresh
  · rw [recorded]
    exact soFar.record fresh agree strict offered fits

/-- After a strict run from the empty mapping, the image of an entity that was visited before one of
its superclasses is the image of that superclass or below it. -/
theorem matchModels_nested (agree : engine.model.LinksAgree) (strict : engine.options.strict = true)
    (sources targets : List EntityId) {lower upper : EntityId}
    (below : Relation.TransGen engine.model.Down upper lower)
    (earlier : (engine.model.superclassFirstOrder sources).idxOf lower <
      (engine.model.superclassFirstOrder sources).idxOf upper) :
    ImagesNested engine.model (engine.matchModels .empty sources targets).value.mapping lower
      upper := by
  let order := engine.model.superclassFirstOrder sources
  have run : engine.VisitedNested order
      (order.foldl (fun state source => (engine.matchSource targets state source).value)
        { mapping := .empty }).mapping := by
    refine foldl_of_nodup (motive := fun done (state : Matching) =>
      engine.VisitedNested done state.mapping) (engine.model.nodup_superclassFirstOrder sources)
      ⟨?_, .nil⟩ fun done source state _ fresh soFar => soFar.step agree strict fresh
    exact fun source mapped => absurd rfl mapped
  have outcome : (engine.matchModels .empty sources targets).value.mapping =
      (order.foldl (fun state source => (engine.matchSource targets state source).value)
        { mapping := .empty }).mapping := by
    unfold matchModels
    simp only [Noted.value_bind, Noted.value_pure, Noted.value_foldlM]
    rfl
  rw [outcome]
  intro lowerImage upperImage lowerMapped upperMapped
  have visited : upper ∈ order := by
    refine run.visited upper fun unmapped => ?_
    simp [Mapping.targetOf?, unmapped] at upperMapped
  have upperThere := List.idxOf_lt_length_of_mem visited
  have pair := List.pairwise_iff_getElem.mp run.nested _ _ (Nat.lt_trans earlier upperThere)
    upperThere earlier
  rw [List.getElem_idxOf, List.getElem_idxOf] at pair
  exact pair below lowerImage upperImage lowerMapped upperMapped

end Engine

/-- A shape with a polygon below it and a square below that, and a shape with a square right below
it. -/
def shapes : Engine where
  model := [Edit.insertEntity (.named "Shape"), .insertEntity (.named "Polygon"),
    .insertEntity (.named "Square"), .insertEntity (.named "Shape"), .insertEntity (.named "Square"),
    .setSuperclass ⟨1⟩ (some ⟨0⟩), .setSuperclass ⟨2⟩ (some ⟨1⟩),
    .setSuperclass ⟨4⟩ (some ⟨3⟩)].foldl Edit.apply .empty
  known := [⟨0⟩, ⟨1⟩, ⟨2⟩, ⟨3⟩, ⟨4⟩]

/-- Without the polygon between them, the square is visited before the shape. -/
theorem matchModels_nested_shapes :
    shapes.model.LinksAgree ∧ shapes.options.strict = true ∧
      Relation.TransGen shapes.model.Down ⟨0⟩ ⟨2⟩ ∧
      (shapes.model.superclassFirstOrder [⟨2⟩, ⟨0⟩]).idxOf ⟨2⟩ <
        (shapes.model.superclassFirstOrder [⟨2⟩, ⟨0⟩]).idxOf ⟨0⟩ ∧
      (shapes.matchModels .empty [⟨2⟩, ⟨0⟩] [⟨3⟩, ⟨4⟩]).value.mapping.targetOf? ⟨2⟩ = some ⟨4⟩ ∧
      (shapes.matchModels .empty [⟨2⟩, ⟨0⟩] [⟨3⟩, ⟨4⟩]).value.mapping.targetOf? ⟨0⟩ = some ⟨3⟩ ∧
      Relation.TransGen shapes.model.Down ⟨3⟩ ⟨4⟩ := by
  have agree : shapes.model.LinksAgree := by decide +kernel
  have polygon : ⟨1⟩ ∈ shapes.model.children ⟨0⟩ := by decide
  have square : ⟨2⟩ ∈ shapes.model.children ⟨1⟩ := by decide
  have below : Relation.TransGen shapes.model.Down ⟨0⟩ ⟨2⟩ := .tail (.single polygon) square
  have earlier : (shapes.model.superclassFirstOrder [⟨2⟩, ⟨0⟩]).idxOf ⟨2⟩ <
      (shapes.model.superclassFirstOrder [⟨2⟩, ⟨0⟩]).idxOf ⟨0⟩ := by decide +kernel
  have lowerMapped : (shapes.matchModels .empty [⟨2⟩, ⟨0⟩] [⟨3⟩, ⟨4⟩]).value.mapping.targetOf? ⟨2⟩ =
      some ⟨4⟩ := by decide +kernel
  have upperMapped : (shapes.matchModels .empty [⟨2⟩, ⟨0⟩] [⟨3⟩, ⟨4⟩]).value.mapping.targetOf? ⟨0⟩ =
      some ⟨3⟩ := by decide +kernel
  have nested := Engine.matchModels_nested agree rfl [⟨2⟩, ⟨0⟩] [⟨3⟩, ⟨4⟩] below earlier ⟨4⟩ ⟨3⟩
    lowerMapped upperMapped
  exact ⟨agree, rfl, below, earlier, lowerMapped, upperMapped, nested.resolve_left (by decide)⟩

/-- A party with a person below it, and a person and a party that have nothing to do with each
other. -/
def parties : Engine where
  model := [Edit.insertEntity (.named "Party"), .insertEntity (.named "Person"),
    .insertEntity (.named "Party"), .insertEntity (.named "Person"),
    .setSuperclass ⟨1⟩ (some ⟨0⟩),
    .attachAttribute ⟨1⟩ { name := "age", type := .primitive "int", owner := ⟨1⟩ },
    .attachAttribute ⟨3⟩ { name := "age", type := .primitive "int", owner := ⟨3⟩ }].foldl Edit.apply
      .empty
  known := [⟨0⟩, ⟨1⟩, ⟨2⟩, ⟨3⟩]

/-- The party is visited first, when there is nothing to compare with, and the person is compared
with nothing above it. So strict runs do not nest all images, not even without cycles. -/
theorem matchModels_parties_apart :
    ¬ ∀ (engine : Engine) (sources targets : List EntityId), engine.model.Reachable →
      (∀ id, ¬ engine.model.OnCycle id) → engine.options.strict = true →
        ∀ lower upper, Relation.TransGen engine.model.Down upper lower →
          Engine.ImagesNested engine.model
            (engine.matchModels .empty sources targets).value.mapping lower upper := by
  intro all
  have reachable : parties.model.Reachable :=
    Model.Reachable.empty.of_leads (Model.EditsFit.leads (by decide))
  have acyclic := Model.not_onCycle_of_lt (show ∀ parent ∈ parties.model.entityIds,
    ∀ child ∈ parties.model.children parent, parent.index < child.index by decide)
  have person : ⟨1⟩ ∈ parties.model.children ⟨0⟩ := by decide
  have lowerMapped : (parties.matchModels .empty [⟨0⟩, ⟨1⟩] [⟨2⟩, ⟨3⟩]).value.mapping.targetOf? ⟨1⟩ =
      some ⟨3⟩ := by decide +kernel
  have upperMapped : (parties.matchModels .empty [⟨0⟩, ⟨1⟩] [⟨2⟩, ⟨3⟩]).value.mapping.targetOf? ⟨0⟩ =
      some ⟨2⟩ := by decide +kernel
  rcases all parties [⟨0⟩, ⟨1⟩] [⟨2⟩, ⟨3⟩] reachable acyclic rfl ⟨1⟩ ⟨0⟩ (.single person) ⟨3⟩ ⟨2⟩
    lowerMapped upperMapped with same | nested
  · cases same
  · obtain ⟨child, down, _⟩ := Relation.TransGen.head'_iff.mp nested
    have none : parties.model.children ⟨2⟩ = [] := by decide
    rw [Model.Down, none] at down
    cases down

end ClassModel
