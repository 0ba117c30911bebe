import ClassModel.Proofs.Copies.Carrying
import ClassModel.Proofs.Document.Loading

/-! Every operation on a model is a sequence of changes.

So what each change keeps, every reachable model has.
-/

set_option autoImplicit false

namespace ClassModel

theorem Entity.isBare_blankCopy (original : Entity) (id : EntityId) :
    (original.blankCopy id).IsBare := by
  constructor <;> rfl

namespace Model

theorem Changes.noLarger {model next : Model} (changes : Changes model next) :
    NoLarger model next := by
  cases changes with
  | edit edit => exact edit.noLarger_apply model
  | settings id change => exact noLarger_modifyEntity (.refl model) id change
  | changeAttribute id change => exact ⟨Nat.le_refl _, Nat.le_refl _⟩
  | changeAssociation id change => exact ⟨Nat.le_refl _, by simp [modifyAssociation]⟩

theorem Leads.noLarger {model next : Model} (leads : Leads model next) : NoLarger model next := by
  induction leads with
  | refl => exact .refl model
  | tail _ changes ih => exact ih.trans changes.noLarger

theorem Leads.hasEntity {model next : Model} (leads : Leads model next) {id : EntityId}
    (existing : model.HasEntity id) : next.HasEntity id :=
  Nat.lt_of_lt_of_le existing leads.noLarger.entities

/-! ## Repair -/

theorem leads_visit (levels : Nat) (branch : List EntityId) (walk : SubclassWalk)
    (parent : EntityId) : Leads walk.model (walk.visit levels branch parent).model := by
  induction levels generalizing branch walk parent with
  | zero => exact .refl
  | succ levels ih =>
    unfold SubclassWalk.visit
    refine List.foldlRecOn (motive := fun state : SubclassWalk => Leads walk.model state.model)
      (walk.model.children parent) _ .refl ?_
    intro state leads child _
    split
    · exact leads.apply (.removeGeneralization parent child) trivial
    · have further := ih (child :: branch) (state.find child) child
      rw [SubclassWalk.find_model] at further
      exact leads.trans further

theorem leads_allSubclasses (model : Model) (id : EntityId) :
    Leads model (model.allSubclasses id).model := leads_visit _ [id] { model } id

theorem leads_leafSubclasses (model : Model) (id : EntityId) :
    Leads model (model.leafSubclasses id).model :=
  (model.leads_allSubclasses id).tail (.settings id _ fun _ => rfl)

/-! ## Copies of entities -/

theorem leads_insertWithAttributes (model : Model) (entity : Entity) (attributes : List Attribute)
    (bare : entity.IsBare) : Leads model (model.insertWithAttributes entity attributes) := by
  have inserted : Leads model (model.insertEntity entity) :=
    .single (.edit (.insertEntity entity) bare)
  unfold insertWithAttributes
  refine (List.foldlRecOn
    (motive := fun state => Leads model state ∧ state.HasEntity model.nextEntity) attributes _
    ⟨inserted, model.hasEntity_nextEntity entity⟩ ?_).1
  intro state ⟨leads, existing⟩ added _
  have attached : Leads state (state.attachAttribute model.nextEntity added) :=
    .single (.edit (.attachAttribute model.nextEntity added) existing)
  exact ⟨leads.trans attached, attached.hasEntity existing⟩

theorem hasEntity_insertWithAttributes (model : Model) (entity : Entity)
    (attributes : List Attribute) :
    (model.insertWithAttributes entity attributes).HasEntity model.nextEntity := by
  unfold insertWithAttributes
  refine List.foldlRecOn (motive := fun state : Model => state.HasEntity model.nextEntity)
    attributes _ (model.hasEntity_nextEntity entity) ?_
  intro state existing added _
  simpa [HasEntity, attachAttribute, entityCount, modifyEntity] using existing

/-- A way to copy an entity: it leads on, and the copy is the next entity. -/
structure Copies (copy : Model → EntityId → Noted Model) : Prop where
  leads : ∀ model id, Leads model (copy model id).value
  added : ∀ model id, (copy model id).value.HasEntity model.nextEntity

theorem copies_flattenedCopy (policy : PathPolicy) (depth : Nat) :
    Copies fun model id => model.flattenedCopy policy id depth where
  leads model id := model.leads_insertWithAttributes _ _ (Entity.isBare_blankCopy _ id)
  added model _ := model.hasEntity_insertWithAttributes _ _

theorem copies_targetCopy : Copies fun model id => pure (model.targetCopy id) where
  leads model id := by
    refine model.leads_insertWithAttributes _ _ ?_
    obtain ⟨_, _, _, _, _, _, _⟩ := Entity.isBare_blankCopy (model.entityAt id) id
    constructor <;> assumption
  added model _ := model.hasEntity_insertWithAttributes _ _

-- Copying one entity after another leads on, and every copy is there in the end.
theorem leads_copyEach {copy : Model → EntityId → Noted Model} (copies : Copies copy)
    (model : Model) (order : List EntityId) :
    Leads model (copyEach copy model order).value.model ∧
      ∀ pair ∈ (copyEach copy model order).value.copies,
        (copyEach copy model order).value.model.HasEntity pair.2 := by
  unfold copyEach
  rw [Noted.value_foldlM]
  refine List.foldlRecOn (motive := fun state : Copying => Leads model state.model ∧
    ∀ pair ∈ state.copies, state.model.HasEntity pair.2) order _ ⟨.refl, by simp⟩ ?_
  intro state ⟨leads, exist⟩ original _
  have further := copies.leads state.model original
  refine ⟨leads.trans further, fun pair member => ?_⟩
  rcases mem_insertPair member with rfl | earlier
  · exact copies.added state.model original
  · exact further.hasEntity (exist pair earlier)

-- What every copy keeps, copying one entity after another keeps.
theorem holds_copyEach (Holds : Model → Prop) (copy : Model → EntityId → Noted Model)
    (keeps : ∀ {model : Model}, Holds model → ∀ id, Holds (copy model id).value) {model : Model}
    (holds : Holds model) (order : List EntityId) :
    Holds (copyEach copy model order).value.model := by
  unfold copyEach
  rw [Noted.value_foldlM]
  exact List.foldlRecOn (motive := fun state : Copying => Holds state.model) order _ holds
    fun state holds original _ => keeps holds original

/-! ## Links and associations of copies -/

section

variable {copies : EntityCopies} {before after : Model}

theorem CarriesLinks.leads (carried : CarriesLinks copies before after)
    (exist : ∀ pair ∈ copies, before.HasEntity pair.2) : Leads before after := by
  induction carried with
  | refl => exact .refl
  | tail _ step leads =>
    cases step with
    | superclass childCopied parentCopied =>
      obtain ⟨child, among, rfl⟩ := childCopied
      obtain ⟨parent, amongToo, rfl⟩ := parentCopied
      refine leads.apply (.setSuperclass child.2 (some parent.2))
        ⟨leads.hasEntity (exist child among), ?_⟩
      rintro id ⟨⟩
      exact leads.hasEntity (exist parent amongToo)
    | parent childCopied parentCopied =>
      obtain ⟨child, among, rfl⟩ := childCopied
      obtain ⟨parent, amongToo, rfl⟩ := parentCopied
      exact leads.apply (.addParent child.2 parent.2)
        ⟨leads.hasEntity (exist child among), leads.hasEntity (exist parent amongToo)⟩

theorem CarriesAssociations.leads {start : Model}
    (carried : CarriesAssociations copies start before after)
    (exist : ∀ pair ∈ copies, before.HasEntity pair.2) : Leads before after := by
  induction carried with
  | refl => exact .refl
  | tail _ step leads =>
    cases step with
    | @add added near _ =>
      obtain ⟨pair, among, same⟩ := near
      exact leads.apply (.addAssociation added) (leads.hasEntity (same ▸ exist pair among))
    | link firstThere _ secondThere =>
      exact leads.apply (.linkInverse _ _) ⟨firstThere, secondThere⟩
    | retarget _ _ change => exact leads.tail (.changeAttribute _ change)

end

theorem leads_copyInheritances (model : Model) (copies : EntityCopies)
    (exist : ∀ pair ∈ copies, model.HasEntity pair.2) :
    Leads model (model.copyInheritances copies).value :=
  (carriesLinks_copyInheritances model copies).leads exist

theorem leads_copyToTarget (model : Model) (copies : EntityCopies)
    (exist : ∀ pair ∈ copies, model.HasEntity pair.2) :
    Leads model (model.copyToTarget copies).value.1 :=
  (carriesAssociations_copyToTarget model copies).leads exist

/-! ## Whole models -/

theorem leads_flattenModel (model : Model) (entities : List EntityId) (policy : PathPolicy)
    (depth : Nat) : Leads model (model.flattenModel entities policy depth).value.model := by
  obtain ⟨leads, exist⟩ := leads_copyEach (copies_flattenedCopy policy depth) model
    (model.superclassFirstOrder entities)
  exact leads.trans (leads_copyInheritances _ _ exist)

theorem leads_targetSchema (model : Model) (entities : List EntityId) :
    Leads model (model.targetSchema entities).value.model := by
  obtain ⟨leads, exist⟩ := leads_copyEach copies_targetCopy model
    (model.superclassFirstOrder entities)
  have inherited := leads_copyInheritances _ _ exist
  exact (leads.trans inherited).trans (leads_copyToTarget _ _ fun pair member =>
    inherited.hasEntity (exist pair member))

/-- Every reachable model comes from the empty one by changes. -/
theorem Reachable.leads {model : Model} (reachable : model.Reachable) : Leads .empty model := by
  induction reachable with
  | empty => exact .refl
  | change _ changes ih => exact ih.tail changes
  | load _ document provenance ih => exact ih.trans (leads_load _ document provenance)
  | allSubclasses _ id ih => exact ih.trans (leads_allSubclasses _ id)
  | leafSubclasses _ id ih => exact ih.trans (leads_leafSubclasses _ id)
  | flattenedCopy _ policy id depth ih =>
    exact ih.trans ((copies_flattenedCopy policy depth).leads _ id)
  | targetCopy _ id ih => exact ih.trans (copies_targetCopy.leads _ id)
  | copyInheritances _ copies exist ih => exact ih.trans (leads_copyInheritances _ copies exist)
  | copyToTarget _ copies exist ih => exact ih.trans (leads_copyToTarget _ copies exist)
  | flattenModel _ entities policy depth ih =>
    exact ih.trans (leads_flattenModel _ entities policy depth)
  | targetSchema _ entities ih => exact ih.trans (leads_targetSchema _ entities)

/-- What holds of the empty model and is kept by every change of a reachable model holds of every
reachable model. -/
theorem Reachable.holds_along {Invariant : Model → Prop} (initial : Invariant .empty)
    (kept : ∀ {model next : Model}, model.Reachable → Changes model next → Invariant model →
      Invariant next)
    {model : Model} (reachable : model.Reachable) : Invariant model := by
  have leads := reachable.leads
  clear reachable
  induction leads with
  | refl => exact initial
  | tail before changes ih => exact kept (Reachable.empty.of_leads before) changes ih

theorem Reachable.holds {Invariant : Model → Prop} (initial : Invariant .empty)
    (kept : ∀ {model next : Model}, Changes model next → Invariant model → Invariant next)
    {model : Model} (reachable : model.Reachable) : Invariant model :=
  reachable.holds_along initial fun _ => kept

theorem Reachable.namesIndexed {model : Model} (reachable : model.Reachable) : NamesIndexed model :=
  reachable.leads.namesIndexed namesIndexed_empty

end Model

end ClassModel
