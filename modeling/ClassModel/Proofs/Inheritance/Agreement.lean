import ClassModel.Proofs.Inheritance.Links
import ClassModel.Proofs.Model.Histories

/-! Both ends of generalization agree.

A link is added and taken away at both of its ends. The one exception is a parent that is primary and
additional at once: it gives up one of its two places, and the link stays.
-/

set_option autoImplicit false

namespace ClassModel

namespace Model

/-- A parent lists exactly the entities that name it, and no list has an entity twice. -/
structure LinksSound (model : Model) : Prop where
  agree : model.LinksAgree
  childrenOnce : ∀ id, (model.children id).Nodup
  parentsOnce : ∀ id, (model.entityAt id).parents.Nodup

end Model

/-- The part of an entity that takes part in generalization. -/
def Entity.links (entity : Entity) : Option EntityId × List EntityId × List EntityId :=
  (entity.superclass, entity.parents, entity.children)

@[simp] theorem Entity.links_structural (entity : Entity) : entity.structural.links = entity.links :=
  rfl

namespace Model

/-- The same generalization links at both ends. -/
def SameLinks (before after : Model) : Prop :=
  ∀ id, (after.entityAt id).links = (before.entityAt id).links

theorem SameLinks.of_entities {before after : Model} (same : after.entities = before.entities) :
    SameLinks before after := by
  intro id
  simp only [entityAt, same]

theorem SameLinks.modifyEntity {before after : Model} (same : SameLinks before after)
    (id : EntityId) (change : Entity → Entity) (kept : ∀ entity, (change entity).links = entity.links) :
    SameLinks before (after.modifyEntity id change) :=
  fun asked => (part_modifyEntity Entity.links after id asked change kept).trans (same asked)

theorem SameLinks.children {before after : Model} (same : SameLinks before after) (id : EntityId) :
    after.children id = before.children id := congrArg (·.2.2) (same id)

theorem SameLinks.down {before after : Model} (same : SameLinks before after) :
    after.Down = before.Down := by
  funext parent child
  rw [Down, Down, same.children]

theorem SameLinks.reaches_iff {before after : Model} (same : SameLinks before after)
    (first second : EntityId) : after.Reaches first second ↔ before.Reaches first second := by
  rw [Reaches, Reaches, same.down]

theorem SameLinks.not_onCycle {before after : Model} (same : SameLinks before after) {id : EntityId}
    (free : ¬ before.OnCycle id) : ¬ after.OnCycle id := by
  rwa [OnCycle, same.down]

theorem SameLinks.linksAgree {before after : Model} (same : SameLinks before after)
    (agree : before.LinksAgree) : after.LinksAgree := by
  intro parent child
  have superclass : after.superclass child = before.superclass child :=
    congrArg Prod.fst (same child)
  have parents : (after.entityAt child).parents = (before.entityAt child).parents :=
    congrArg (·.2.1) (same child)
  rw [Down, same.children, mem_allParents, superclass, parents, ← mem_allParents]
  exact agree parent child

namespace LinksSound

variable {model next : Model}

theorem empty : LinksSound .empty where
  agree := by decide
  childrenOnce _ := List.nodup_nil
  parentsOnce _ := List.nodup_nil

theorem same (sound : LinksSound model) (same : SameLinks model next) : LinksSound next := by
  have parents : ∀ id, (next.entityAt id).parents = (model.entityAt id).parents :=
    fun id => congrArg (·.2.1) (same id)
  refine ⟨same.linksAgree sound.agree, fun id => ?_, fun id => ?_⟩
  · rw [same.children]
    exact sound.childrenOnce id
  · rw [parents]
    exact sound.parentsOnce id

theorem cut {links : List (EntityId × EntityId)} (sound : LinksSound model)
    (gone : Cut links model next) : LinksSound next where
  agree := gone.linksAgree sound.agree
  childrenOnce id := by
    rw [gone.children]
    exact (sound.childrenOnce id).filter _
  parentsOnce id := by
    rw [gone.parents]
    exact (sound.parentsOnce id).filter _

end LinksSound

/-! ## The two ends -/

section

variable (model : Model) (parent child asked : EntityId)

theorem superclass_unlistChild :
    (model.unlistChild parent child).superclass asked = model.superclass asked :=
  part_modifyEntity Entity.superclass model parent asked _ fun _ => rfl

theorem parents_unlistChild : ((model.unlistChild parent child).entityAt asked).parents =
    (model.entityAt asked).parents :=
  part_modifyEntity Entity.parents model parent asked _ fun _ => rfl

theorem children_unlistChild : (model.unlistChild parent child).children asked =
    if asked = parent then (model.children asked).filter (· != child) else model.children asked :=
  part_modifyEntity_altered Entity.children _ _ _ _ _ (fun _ => rfl) rfl

theorem superclass_listChild :
    (model.listChild parent child).superclass asked = model.superclass asked :=
  part_modifyEntity Entity.superclass model parent asked _ fun entity => by split <;> rfl

theorem parents_listChild : ((model.listChild parent child).entityAt asked).parents =
    (model.entityAt asked).parents :=
  part_modifyEntity Entity.parents model parent asked _ fun entity => by split <;> rfl

variable {parent}

theorem children_listChild (existing : model.HasEntity parent) :
    (model.listChild parent child).children asked =
      if asked = parent ∧ child ∉ model.children parent then model.children asked ++ [child]
      else model.children asked := by
  unfold children listChild
  rw [entityAt_modifyEntity]
  by_cases here : parent = asked
  · subst here
    rw [if_pos ⟨rfl, existing⟩]
    by_cases listed : child ∈ (model.entityAt parent).children
    · simp [listed]
    · simp [listed]
  · have other : asked ≠ parent := fun same => here same.symm
    simp [here, other]

end

/-- The model in which an entity names its superclass, before any parent lists it. -/
def nameSuperclass (model : Model) (child : EntityId) (named : Option EntityId) : Model :=
  model.modifyEntity child ({ · with superclass := named })

section

variable (model : Model) {child : EntityId} (named : Option EntityId) (asked : EntityId)

theorem superclass_nameSuperclass (existing : model.HasEntity child) :
    (model.nameSuperclass child named).superclass asked =
      if asked = child then named else model.superclass asked := by
  unfold superclass nameSuperclass
  rw [entityAt_modifyEntity]
  by_cases here : child = asked
  · subst here
    rw [if_pos ⟨rfl, existing⟩, if_pos rfl]
  · have other : asked ≠ child := fun same => here same.symm
    simp [here, other]

theorem parents_nameSuperclass : ((model.nameSuperclass child named).entityAt asked).parents =
    (model.entityAt asked).parents :=
  part_modifyEntity Entity.parents model child asked _ fun _ => rfl

theorem children_nameSuperclass :
    (model.nameSuperclass child named).children asked = model.children asked :=
  part_modifyEntity Entity.children model child asked _ fun _ => rfl

end

/-! ## A link less -/

theorem hasEntity_of_superclass {model : Model} {child parent : EntityId}
    (named : model.superclass child = some parent) : model.HasEntity child :=
  hasEntity_of_mem_allParents ((model.mem_allParents parent child).mpr (.inl named))

theorem filter_not_mem_singleton (listed : List EntityId) (parent child asked : EntityId) :
    (if asked = parent then listed.filter (· != child) else listed) =
      listed.filter fun other => (asked, other) ∉ [(parent, child)] := by
  by_cases here : asked = parent
  · rw [if_pos here]
    exact List.filter_congr fun other _ => by simp [here, bne, Bool.beq_eq_decide_eq]
  · rw [if_neg here]
    refine (List.filter_eq_self.mpr fun other _ => ?_).symm
    simp [here]

theorem clearSuperclass_of_some (model : Model) {child old : EntityId}
    (named : model.superclass child = some old) :
    model.clearSuperclass child =
      if old ∈ (model.entityAt child).parents then model.nameSuperclass child none
      else (model.nameSuperclass child none).unlistChild old child := by
  simp only [clearSuperclass, named]
  rfl

-- A primary parent that is not an additional one as well is cut off like any parent.
theorem cut_clearSuperclass (model : Model) {child old : EntityId}
    (named : model.superclass child = some old) (once : old ∉ (model.entityAt child).parents) :
    Cut [(old, child)] model (model.clearSuperclass child) := by
  have same := model.sameButLinks_clearSuperclass child
  rw [model.clearSuperclass_of_some named, if_neg once] at same ⊢
  refine ⟨same, fun asked => ?children, fun asked => ?superclass, fun asked => ?parents⟩
  case children =>
    rw [children_unlistChild, children_nameSuperclass]
    exact filter_not_mem_singleton _ old child asked
  case superclass =>
    rw [superclass_unlistChild, superclass_nameSuperclass _ _ _ (hasEntity_of_superclass named)]
    by_cases here : asked = child
    · simp [here, named, Option.filter]
    · cases model.superclass asked <;> simp [here, Option.filter]
  case parents =>
    rw [parents_unlistChild, parents_nameSuperclass]
    refine (List.filter_eq_self.mpr fun parent listed => ?_).symm
    have other : (parent, asked) ≠ (old, child) := by
      rintro ⟨⟩
      exact once listed
    exact decide_eq_true (by simpa only [List.mem_singleton] using other)

theorem superclass_clearSuperclass (model : Model) (child asked : EntityId) :
    (model.clearSuperclass child).superclass asked =
      if asked = child then none else model.superclass asked := by
  cases named : model.superclass child with
  | none =>
    rw [show model.clearSuperclass child = model by simp [clearSuperclass, named]]
    split
    · rename_i here
      rw [here, named]
    · rfl
  | some old =>
    have cleared := model.superclass_nameSuperclass none asked (hasEntity_of_superclass named)
    rw [model.clearSuperclass_of_some named]
    split
    · exact cleared
    · rw [superclass_unlistChild]
      exact cleared

-- Where the old superclass is an additional parent too, it is still named as one.
theorem LinksSound.clearSuperclass {model : Model} (sound : LinksSound model) (child : EntityId) :
    LinksSound (model.clearSuperclass child) := by
  have superclass := model.superclass_clearSuperclass child
  cases named : model.superclass child with
  | none => simpa [Model.clearSuperclass, named] using sound
  | some old =>
    by_cases twice : old ∈ (model.entityAt child).parents
    · rw [model.clearSuperclass_of_some named, if_pos twice] at superclass ⊢
      refine ⟨fun parent asked => ?_, fun asked => ?_, fun asked => ?_⟩
      · rw [Down, children_nameSuperclass, mem_allParents, superclass, parents_nameSuperclass]
        refine (sound.agree parent asked).trans ((model.mem_allParents parent asked).trans ?_)
        by_cases here : asked = child
        · subst here
          rw [if_pos rfl, named]
          constructor
          · rintro (⟨⟨⟩⟩ | listed)
            · exact .inr twice
            · exact .inr listed
          · rintro (⟨⟨⟩⟩ | listed)
            exact .inr listed
        · rw [if_neg here]
      · rw [children_nameSuperclass]
        exact sound.childrenOnce asked
      · rw [parents_nameSuperclass]
        exact sound.parentsOnce asked
    · exact sound.cut (model.cut_clearSuperclass named twice)

/-! ## A link more -/

/-- The second model has one more link, or names a link once more. -/
structure LinkAdded (parent child : EntityId) (before after : Model) : Prop where
  named : ∀ upper lower, upper ∈ after.allParents lower ↔
    upper ∈ before.allParents lower ∨ upper = parent ∧ lower = child
  children : ∀ asked, after.children asked =
    if asked = parent ∧ child ∉ before.children parent then before.children asked ++ [child]
    else before.children asked

theorem LinkAdded.linksAgree {parent child : EntityId} {before after : Model}
    (added : LinkAdded parent child before after) (agree : before.LinksAgree) :
    after.LinksAgree := by
  intro upper lower
  rw [added.named, ← agree upper lower, Down, Down, added.children]
  by_cases new : upper = parent ∧ child ∉ before.children parent
  · rw [if_pos new, List.mem_append, List.mem_singleton]
    simp [new.1]
  · rw [if_neg new]
    constructor
    · exact .inl
    · rintro (link | ⟨rfl, rfl⟩)
      · exact link
      · simpa using new

theorem LinkAdded.childrenOnce {parent child : EntityId} {before after : Model}
    (added : LinkAdded parent child before after) (once : ∀ id, (before.children id).Nodup)
    (id : EntityId) : (after.children id).Nodup := by
  rw [added.children]
  split
  · rename_i new
    rw [new.1]
    refine List.nodup_append.mpr ⟨once parent, by simp, ?_⟩
    rintro other listed single member rfl
    exact new.2 (List.mem_singleton.mp member ▸ listed)
  · exact once id

section

variable {model : Model} {child parent : EntityId}

theorem LinksSound.nameNone (sound : LinksSound model) (existing : model.HasEntity child)
    (free : model.superclass child = none) : LinksSound (model.nameSuperclass child none) := by
  refine sound.same fun asked => Prod.ext ?_ (Prod.ext ?_ ?_)
  · refine (model.superclass_nameSuperclass none asked existing).trans ?_
    split
    · rename_i here
      exact (here ▸ free).symm
    · rfl
  · exact model.parents_nameSuperclass none asked
  · exact model.children_nameSuperclass none asked

theorem LinksSound.nameSome (sound : LinksSound model) (existing : model.HasEntity child)
    (free : model.superclass child = none) (parentExists : model.HasEntity parent) :
    LinksSound ((model.nameSuperclass child (some parent)).listChild parent child) := by
  have there : (model.nameSuperclass child (some parent)).HasEntity parent := by
    simpa [nameSuperclass, HasEntity] using parentExists
  have added : LinkAdded parent child model
      ((model.nameSuperclass child (some parent)).listChild parent child) := by
    constructor
    · intro upper lower
      rw [mem_allParents, superclass_listChild, parents_listChild,
        superclass_nameSuperclass _ _ _ existing, parents_nameSuperclass, mem_allParents]
      by_cases here : lower = child
      · subst here
        simp [free, eq_comm, or_comm]
      · simp [here]
    · intro asked
      rw [children_listChild _ _ _ there, children_nameSuperclass, children_nameSuperclass]
  refine ⟨added.linksAgree sound.agree, added.childrenOnce sound.childrenOnce, fun id => ?_⟩
  rw [parents_listChild, parents_nameSuperclass]
  exact sound.parentsOnce id

theorem LinksSound.setSuperclass (sound : LinksSound model) (existing : model.HasEntity child)
    (named : Option EntityId) (parentExists : ∀ id ∈ named, model.HasEntity id) :
    LinksSound (model.setSuperclass child named) := by
  have count := (model.sameButLinks_clearSuperclass child).count
  have there : ∀ id, model.HasEntity id → (model.clearSuperclass child).HasEntity id := by
    intro id existing
    simpa [HasEntity, count] using existing
  have free : (model.clearSuperclass child).superclass child = none := by
    rw [superclass_clearSuperclass, if_pos rfl]
  have cleared := sound.clearSuperclass child
  cases named with
  | none => exact cleared.nameNone (there child existing) free
  | some parent => exact cleared.nameSome (there child existing) free (there parent (parentExists parent rfl))

theorem LinksSound.addParent (sound : LinksSound model) (existing : model.HasEntity child)
    (parentExists : model.HasEntity parent) : LinksSound (model.addParent child parent) := by
  unfold Model.addParent
  split
  · exact sound
  · rename_i new
    let changed := model.modifyEntity child fun entity =>
      { entity with parents := entity.parents ++ [parent] }
    have superclass : ∀ asked, changed.superclass asked = model.superclass asked := fun asked =>
      part_modifyEntity Entity.superclass model child asked _ fun _ => rfl
    have children : ∀ asked, changed.children asked = model.children asked := fun asked =>
      part_modifyEntity Entity.children model child asked _ fun _ => rfl
    have parents : ∀ asked, (changed.entityAt asked).parents =
        if asked = child then (model.entityAt asked).parents ++ [parent]
        else (model.entityAt asked).parents := by
      intro asked
      by_cases here : asked = child
      · subst here
        rw [if_pos rfl, entityAt_modifyEntity_same _ _ _ existing]
      · rw [if_neg here, entityAt_modifyEntity_of_ne _ _ _ _ (Ne.symm here)]
    have there : changed.HasEntity parent := by simpa [changed, HasEntity] using parentExists
    have added : LinkAdded parent child model (changed.listChild parent child) := by
      constructor
      · intro upper lower
        rw [mem_allParents, superclass_listChild, parents_listChild, superclass, parents,
          mem_allParents]
        by_cases here : lower = child
        · simp [here, or_assoc]
        · simp [here]
      · intro asked
        rw [children_listChild _ _ _ there, children, children]
    refine ⟨added.linksAgree sound.agree, added.childrenOnce sound.childrenOnce, fun id => ?_⟩
    rw [parents_listChild, parents]
    split
    · rename_i here
      subst here
      refine List.nodup_append.mpr ⟨sound.parentsOnce id, by simp, ?_⟩
      rintro other listed single member rfl
      obtain rfl := List.mem_singleton.mp member
      exact new ((model.mem_allParents _ id).mpr (.inr listed))
    · exact sound.parentsOnce id

end

/-! ## Every change -/

-- Whatever else an edit adds, it changes no link: a new entity has none.
theorem sameLinks_insertEntity (model : Model) {entity : Entity} (bare : entity.IsBare) :
    SameLinks model (model.insertEntity entity) := by
  refine fun id => part_insertEntity Entity.links model entity id ?_
  rw [Entity.links, bare.superclass, bare.parents, bare.children]
  rfl

theorem LinksSound.edit {model : Model} (sound : LinksSound model) (edit : Edit)
    (fits : edit.Fits model) : LinksSound (edit.apply model) := by
  cases edit with
  | insertEntity entity => exact sound.same (model.sameLinks_insertEntity fits)
  | attachAttribute entity added =>
    exact sound.same ((SameLinks.of_entities rfl).modifyEntity _ _ fun _ => rfl)
  | removeAttribute entity removed =>
    exact sound.same ((SameLinks.of_entities rfl).modifyEntity _ _ fun _ => rfl)
  | addAssociation added =>
    exact sound.same ((SameLinks.of_entities rfl).modifyEntity _ _ fun _ => rfl)
  | removeAssociation entity removed =>
    exact sound.same ((SameLinks.of_entities rfl).modifyEntity _ _ fun _ => rfl)
  | linkInverse first second =>
    exact sound.same (.of_entities (model.entities_linkInverse first second))
  | addOperation added =>
    exact sound.same ((SameLinks.of_entities rfl).modifyEntity _ _ fun _ => rfl)
  | addInvariant added =>
    exact sound.same ((SameLinks.of_entities rfl).modifyEntity _ _ fun _ => rfl)
  | setSuperclass child parent => exact sound.setSuperclass fits.1 parent fits.2
  | addParent child parent => exact sound.addParent fits.1 fits.2
  | removeGeneralization parent child =>
    exact sound.cut (cut_removeGeneralization model parent child)

theorem LinksSound.changes {model next : Model} (sound : LinksSound model)
    (changes : Changes model next) : LinksSound next := by
  cases changes with
  | edit edit fits => exact sound.edit edit fits
  | settings id change kept =>
    refine sound.same ((SameLinks.of_entities rfl).modifyEntity _ _ fun entity => ?_)
    simpa using congrArg Entity.links (kept entity)
  | changeAttribute id change => exact sound.same (.of_entities rfl)
  | changeAssociation id change => exact sound.same (.of_entities rfl)

theorem Reachable.linksSound {model : Model} (reachable : model.Reachable) : LinksSound model :=
  reachable.holds .empty fun changes sound => sound.changes changes

/-- In a reachable model an entity is among the children of another exactly when it has it as its
superclass or as an additional parent, and no list of children or of parents repeats an entity. -/
theorem Reachable.mem_children_iff {model : Model} (reachable : model.Reachable) :
    (∀ parent child, child ∈ model.children parent ↔
      model.superclass child = some parent ∨ parent ∈ (model.entityAt child).parents) ∧
    ∀ id, (model.children id).Nodup ∧ (model.entityAt id).parents.Nodup := by
  have sound := reachable.linksSound
  refine ⟨fun parent child => ?_, fun id => ⟨sound.childrenOnce id, sound.parentsOnce id⟩⟩
  rw [← mem_allParents]
  exact sound.agree parent child

/-- An entity that is a subclass of itself, and one of which it is the superclass and an additional
parent. -/
def doubleLink : Model :=
  [Edit.insertEntity (.named "Base"), .insertEntity (.named "Part"), .addParent ⟨1⟩ ⟨0⟩,
    .setSuperclass ⟨1⟩ (some ⟨0⟩), .setSuperclass ⟨0⟩ (some ⟨0⟩)].foldl Edit.apply .empty

theorem mem_children_doubleLink :
    doubleLink.Reachable ∧ doubleLink.superclass ⟨1⟩ = some ⟨0⟩ ∧
      (doubleLink.entityAt ⟨1⟩).parents = [⟨0⟩] ∧ ⟨1⟩ ∈ doubleLink.children ⟨0⟩ ∧
      (doubleLink.children ⟨0⟩).Nodup := by
  have reachable : doubleLink.Reachable := Reachable.empty.of_leads (EditsFit.leads (by decide))
  obtain ⟨listed, once⟩ := Reachable.mem_children_iff reachable
  have superclass : doubleLink.superclass ⟨1⟩ = some ⟨0⟩ := by decide
  exact ⟨reachable, superclass, by decide, (listed ⟨0⟩ ⟨1⟩).mpr (.inl superclass), (once ⟨0⟩).1⟩

end Model

end ClassModel
