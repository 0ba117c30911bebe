import ClassModel.Proofs.Copies.Flattening
import ClassModel.Proofs.Model.Histories

/-! The two sides of a model along whole paths.

Every step is kept from crossing to the other side, but a shared entity is on neither side. So a path
may still come to the other side, and it does so only through a shared entity.
-/

set_option autoImplicit false

namespace ClassModel

-- Who crosses from one side can only stay, go over, or be shared.
theorem Provenance.eq_of_crosses {near far found : Provenance} (sides : near.crosses far)
    (stays : ¬ near.crosses found) (neutral : found ≠ .shared) : found = near := by
  cases near <;> cases far <;> cases found <;> simp_all [crosses]

namespace Model

/-- The provenance of the entity a role leads to. -/
def farSide (model : Model) (role : AssociationId) : Provenance :=
  (model.entityAt (model.far role)).provenance

/-- A path in which every role that leads to a side comes after one that leads to a shared
entity. -/
def ThroughShared (model : Model) (side : Provenance) (path : Path) : Prop :=
  ∀ before role after, path = before ++ .role role :: after → model.farSide role = side →
    ∃ earlier ∈ Path.roles before, model.farSide earlier = .shared

variable {model : Model}

theorem Offers.stays {id : EntityId} {role : AssociationId} (offered : model.Offers id (.role role)) :
    ¬ (model.entityAt id).provenance.crosses (model.farSide role) := by
  cases offered with
  | ofRole _ inside => exact inside

-- The sides are those of the entity the walk is at; once it is at a shared entity, all is allowed.
theorem Route.throughShared {id : EntityId} {path : Path} (route : model.Route id path)
    {near far : Provenance} (sides : near.crosses far)
    (here : (model.entityAt id).provenance = near) : model.ThroughShared far path := by
  induction route with
  | @last id step offered =>
    intro before role after split reaches
    obtain ⟨rfl, first⟩ := List.append_eq_singleton_iff.mp split.symm |>.resolve_right (by simp)
    obtain ⟨rfl, rfl⟩ := List.cons.inj first
    exact absurd (by rwa [here, reaches]) offered.stays
  | @through id role rest offered _ ih =>
    have stays : ¬ near.crosses (model.farSide role) := here ▸ offered.stays
    intro before later after split reaches
    cases before with
    | nil =>
      obtain ⟨same, _⟩ := List.cons.inj split
      cases same
      exact absurd (reaches ▸ sides) stays
    | cons first before =>
      obtain ⟨rfl, further⟩ := List.cons.inj split
      rw [Path.roles_role_cons]
      by_cases neutral : model.farSide role = .shared
      · exact ⟨role, List.mem_cons_self, neutral⟩
      · have there := Provenance.eq_of_crosses sides stays neutral
        obtain ⟨earlier, among, shared⟩ := ih there before later after further reaches
        exact ⟨earlier, List.mem_cons_of_mem _ among, shared⟩

theorem throughShared_of_mem_composedPaths {policy : PathPolicy} {root : EntityId}
    {seen : List EntityId} {steps : Nat} {path : Path}
    (member : path ∈ model.composedPaths policy root seen steps) {near far : Provenance}
    (sides : near.crosses far) (here : (model.entityAt root).provenance = near) :
    model.ThroughShared far path :=
  (mem_pathsFrom.mp member).route.throughShared sides here

/-- From an entity of one side every enumerated path, and every path an attribute of the flattened
copy stands for, leads to the other side only behind a shared entity. -/
theorem otherSide_throughShared (policy : PathPolicy) {id : EntityId} {near far : Provenance}
    (sides : near.crosses far) (here : (model.entityAt id).provenance = near) (depth : Nat) :
    (∀ path ∈ model.composedPaths policy id [] depth, model.ThroughShared far path) ∧
      ∀ declared ∈ model.attributesOfCopy policy id depth,
        (∃ last ∈ model.definedAttributes id, declared = model.attributeAt last) ∨
          ∃ path ∈ model.composedPaths policy id [] (max depth 1),
            declared.path = some path ∧ model.ThroughShared far path := by
  refine ⟨fun path member => throughShared_of_mem_composedPaths member sides here, ?_⟩
  intro declared member
  rw [attributesOfCopy_eq] at member
  rcases model.mem_flattenedAttributes policy id depth member with own | ⟨path, listed, stands⟩
  · exact .inl own
  · exact .inr ⟨path, listed, stands, throughShared_of_mem_composedPaths listed sides here⟩

/-- A source entity, a shared one it leads to, and a target one that the shared one leads to. -/
def relay : Model :=
  [Edit.insertEntity { Entity.named "A" with provenance := .source }, .insertEntity (.named "B"),
    .insertEntity { Entity.named "C" with provenance := .target },
    .addAssociation { entity1 := ⟨0⟩, entity2 := ⟨1⟩, role2 := "b" },
    .addAssociation { entity1 := ⟨1⟩, entity2 := ⟨2⟩, role2 := "c" }].foldl Edit.apply .empty

theorem reachable_relay : relay.Reachable :=
  Reachable.empty.of_leads (EditsFit.leads (by decide))

theorem mem_composedPaths_relay :
    [.role ⟨0⟩, .role ⟨1⟩] ∈ relay.composedPaths .strict ⟨0⟩ [] 2 := by decide +kernel

/-- A path from the source side does lead to the target side, and the flattened copy of the source
entity has an attribute for it. -/
theorem composedPaths_relay_crosses :
    relay.Reachable ∧ (relay.entityAt ⟨0⟩).provenance = .source ∧
      ¬ (∀ path ∈ relay.composedPaths .strict ⟨0⟩ [] 2, ∀ role ∈ Path.roles path,
        relay.farSide role ≠ .target) ∧
      ∃ declared ∈ relay.attributesOfCopy .strict ⟨0⟩ 2,
        declared.path = some [.role ⟨0⟩, .role ⟨1⟩] := by
  refine ⟨reachable_relay, rfl, fun never => ?_, ?_⟩
  · exact never _ mem_composedPaths_relay ⟨1⟩ (by decide) (by decide)
  · have paths : (relay.flattenedAttributes .strict ⟨0⟩ 2).map Attribute.path =
        [some [.role ⟨0⟩], some [.role ⟨0⟩, .role ⟨1⟩]] := by decide +kernel
    rw [attributesOfCopy_eq]
    exact List.mem_map.mp (paths ▸ List.mem_cons_of_mem _ List.mem_cons_self)

/-- Its path to the target entity goes through the shared one. -/
theorem otherSide_throughShared_relay :
    Provenance.source.crosses .target ∧ (relay.entityAt ⟨0⟩).provenance = .source ∧
      relay.ThroughShared .target [.role ⟨0⟩, .role ⟨1⟩] :=
  ⟨rfl, rfl, (otherSide_throughShared .strict rfl rfl 2).1 _ mem_composedPaths_relay⟩

end Model

end ClassModel
