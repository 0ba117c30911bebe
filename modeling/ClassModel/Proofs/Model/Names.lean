import ClassModel.Proofs.Model.Growth
import ClassModel.Proofs.Model.Reachable

/-! Entities by name.

The index of names is written when an entity is added and at no other time, and no entity is renamed.
So the index answers as a search for the first entity of a name would.
-/

set_option autoImplicit false

namespace ClassModel.Model

/-! ## Searching -/

/-- The first entity that has a name, looked for among all entities. -/
def firstNamed? (model : Model) (asked : String) : Option EntityId :=
  (model.entities.findIdx? fun entity => entity.name == asked).map EntityId.mk

theorem name_getElem_beq_iff (model : Model) (asked : String) {index : Nat}
    (there : index < model.entities.size) :
    (model.entities[index].name == asked) = true ↔ model.name ⟨index⟩ = asked := by
  rw [beq_iff_eq, name, model.entityAt_eq_getElem ⟨index⟩ there]

theorem firstNamed?_eq_some_iff (model : Model) (asked : String) (id : EntityId) :
    model.firstNamed? asked = some id ↔ model.HasEntity id ∧ model.name id = asked ∧
      ∀ earlier : EntityId, earlier.index < id.index → model.name earlier ≠ asked := by
  have found : model.firstNamed? asked = some id ↔
      (model.entities.findIdx? fun entity => entity.name == asked) = some id.index := by
    cases id
    simp [firstNamed?]
  rw [found, Array.findIdx?_eq_some_iff_getElem]
  constructor
  · rintro ⟨there, named, first⟩
    refine ⟨there, (model.name_getElem_beq_iff asked there).mp named, fun earlier before => ?_⟩
    have inside : earlier.index < model.entities.size := Nat.lt_trans before there
    exact mt (model.name_getElem_beq_iff asked inside).mpr (first earlier.index before)
  · rintro ⟨there, named, first⟩
    refine ⟨there, (model.name_getElem_beq_iff asked there).mpr named, fun earlier before => ?_⟩
    have inside : earlier < model.entities.size := Nat.lt_trans before there
    exact mt (model.name_getElem_beq_iff asked inside).mp (first ⟨earlier⟩ before)

theorem firstNamed?_eq_none_iff (model : Model) (asked : String) :
    model.firstNamed? asked = none ↔ ∀ id, model.HasEntity id → model.name id ≠ asked := by
  simp only [firstNamed?, Option.map_eq_none_iff, Array.findIdx?_eq_none_iff]
  constructor
  · intro nowhere id there
    have other := nowhere _ (Array.getElem_mem there)
    exact mt (model.name_getElem_beq_iff asked there).mpr (Bool.eq_false_iff.mp other)
  · intro nowhere entity member
    obtain ⟨index, there, rfl⟩ := Array.mem_iff_getElem.mp member
    exact Bool.eq_false_iff.mpr
      (mt (model.name_getElem_beq_iff asked there).mp (nowhere ⟨index⟩ there))

theorem firstNamed?_insertEntity (model : Model) (entity : Entity) (asked : String) :
    (model.insertEntity entity).firstNamed? asked =
      (model.firstNamed? asked).or (if entity.name = asked then some model.nextEntity else none) := by
  unfold firstNamed? insertEntity
  rw [Array.findIdx?_push]
  cases (model.entities.findIdx? fun entity => entity.name == asked) with
  | some index => rfl
  | none => by_cases named : entity.name = asked <;> simp [named, nextEntity]

/-! ## Changes -/

/-- Two models that have the same entities by name, and the same index of them. -/
structure SameNames (before after : Model) : Prop where
  index : after.names = before.names
  count : after.entityCount = before.entityCount
  name : ∀ id, after.name id = before.name id

namespace SameNames

variable {before after : Model}

theorem of_sameButLinks (same : SameButLinks before after) : SameNames before after where
  index := same.names
  count := same.count
  name id := (congrArg Entity.name (same.entities id) :)

theorem entityNamed? (same : SameNames before after) (asked : String) :
    after.entityNamed? asked = before.entityNamed? asked :=
  congrArg (NameIndex.find? · asked) same.index

theorem firstNamed? (same : SameNames before after) (asked : String) :
    after.firstNamed? asked = before.firstNamed? asked := by
  refine Option.ext fun id => ?_
  simp only [firstNamed?_eq_some_iff, HasEntity, same.count, same.name]

end SameNames

-- No entity is ever renamed, and the index is left alone unless an entity is added.
theorem Changes.names {model next : Model} (changes : Changes model next) :
    (∃ entity, next = model.insertEntity entity) ∨ SameNames model next := by
  cases changes with
  | settings id change kept =>
    refine .inr ⟨rfl, model.entityCount_modifyEntity id change, fun asked => ?_⟩
    exact part_modifyEntity Entity.name model id asked change fun entity =>
      (congrArg Entity.name (kept entity) :)
  | changeAttribute | changeAssociation => exact .inr ⟨rfl, rfl, fun _ => rfl⟩
  | edit edit =>
    cases edit with
    | insertEntity entity => exact .inl ⟨entity, rfl⟩
    | linkInverse first second =>
      have same := model.entities_linkInverse first second
      exact .inr ⟨model.names_linkInverse first second, congrArg Array.size same,
        fun id => by simp only [name, entityAt, Edit.apply, same]⟩
    | setSuperclass child parent =>
      exact .inr (.of_sameButLinks (model.sameButLinks_setSuperclass child parent))
    | addParent child parent =>
      exact .inr (.of_sameButLinks (model.sameButLinks_addParent child parent))
    | removeGeneralization parent child =>
      exact .inr (.of_sameButLinks (model.sameButLinks_removeGeneralization parent child))
    | _ =>
      exact .inr ⟨rfl, entityCount_modifyEntity _ _ _, fun id =>
        part_modifyEntity Entity.name _ _ id _ fun _ => rfl⟩

-- The number that is found under a name is never replaced.
theorem Leads.entityNamed?_eq_some {earlier model : Model} (leads : Leads earlier model)
    {asked : String} {id : EntityId} (found : earlier.entityNamed? asked = some id) :
    model.entityNamed? asked = some id := by
  induction leads with
  | refl => exact found
  | tail _ changes ih =>
    rcases changes.names with ⟨entity, rfl⟩ | same
    · rw [entityNamed?_insertEntity, ih, Option.some_or]
    · rw [same.entityNamed?, ih]

/-! ## The index -/

/-- The index answers as a search does. -/
def NamesIndexed (model : Model) : Prop :=
  ∀ asked, model.entityNamed? asked = model.firstNamed? asked

theorem namesIndexed_empty : NamesIndexed .empty := fun _ => by
  simp [entityNamed?, firstNamed?, empty, NameIndex.find?]

theorem NamesIndexed.step {model next : Model} (indexed : NamesIndexed model)
    (changes : Changes model next) : NamesIndexed next := by
  intro asked
  rcases changes.names with ⟨entity, rfl⟩ | same
  · rw [entityNamed?_insertEntity, firstNamed?_insertEntity, indexed asked]
  · rw [same.entityNamed?, same.firstNamed?, indexed asked]

theorem Leads.namesIndexed {model next : Model} (leads : Leads model next)
    (indexed : NamesIndexed model) : NamesIndexed next := by
  induction leads with
  | refl => exact indexed
  | tail _ changes ih => exact ih.step changes

/-- Entities that take over names do not change who is found by name: the first one of a name is. -/
theorem Extends.entityNamed? {before after : Model} (kept : Extends before after)
    (indexed : NamesIndexed before) (indexedAfter : NamesIndexed after)
    (names : ∀ id, after.HasEntity id → ¬ before.HasEntity id →
      ∃ first, before.HasEntity first ∧ before.name first = after.name id) (asked : String) :
    after.entityNamed? asked = before.entityNamed? asked := by
  cases found : before.entityNamed? asked with
  | some id => exact kept.named asked id found
  | none =>
    rw [indexed asked, firstNamed?_eq_none_iff] at found
    rw [indexedAfter asked, firstNamed?_eq_none_iff]
    intro id there
    by_cases old : before.HasEntity id
    · rw [kept.name old]
      exact found id old
    · obtain ⟨first, existing, shared⟩ := names id there old
      rw [← shared]
      exact found first existing

end ClassModel.Model
