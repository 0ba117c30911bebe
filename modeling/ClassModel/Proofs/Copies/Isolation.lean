import ClassModel.Proofs.Copies.Apart
import ClassModel.Proofs.Features.Growth

/-! Copies of many entities at once.

Copying whole lists of entities leaves the model as it is and gives every one of them one new copy.
A flattened copy does not depend on the copies that are made before it.
-/

set_option autoImplicit false

namespace ClassModel.Model

/-! ## One copy after another -/

/-- A new entity that has the name of its original and remembers it. -/
structure IsCopy (start model : Model) (original copy : EntityId) : Prop where
  new : ¬ start.HasEntity copy
  there : model.HasEntity copy
  name : model.name copy = start.name original
  copyOf : (model.entityAt copy).copyOf = some original

/-- The attributes a model declares for an entity, all of which it has. -/
structure Declares (model : Model) (id : EntityId) (attributes : List Attribute) : Prop where
  declared : model.declaredAttributes id = attributes
  there : ∀ listed ∈ (model.entityAt id).attributes, model.HasAttribute listed

/-- Whether a fact about an original and its copy outlives the growth of the model. -/
def KeptByGrowth (fact : Model → EntityId → EntityId → Prop) : Prop :=
  ∀ (before after : Model) (original copy : EntityId), before.HasEntity copy →
    before.Extends after → fact before original copy → fact after original copy

theorem keptByGrowth_declares (attributesOf : EntityId → List Attribute) :
    KeptByGrowth fun model original copy => Declares model copy (attributesOf original) := by
  intro before after original copy existing kept declares
  refine ⟨(kept.declaredAttributes existing declares.there).trans declares.declared, ?_⟩
  intro listed member
  rw [kept.entityAt existing] at member
  exact kept.hasAttribute (declares.there listed member)

theorem Inserted.declares {model after : Model} {entity : Entity} {attributes : List Attribute}
    (inserted : Inserted model entity attributes after) :
    Declares after model.nextEntity attributes where
  declared := inserted.declared
  there listed member := (inserted.listed listed member).1

/-- A way to copy the entities of a model, also after it has grown: the copy is the next entity, and
a certain fact holds of it. -/
def CopiesAs (start : Model) (copy : Model → EntityId → Noted Model)
    (fact : Model → EntityId → EntityId → Prop) : Prop :=
  ∀ model original, start.Extends model → start.HasEntity original →
    ∃ (entity : Entity) (attributes : List Attribute), entity.superclass = none ∧
      entity.name = start.name original ∧ entity.copyOf = some original ∧
      Inserted model entity attributes (copy model original).value ∧
      fact (copy model original).value original model.nextEntity

theorem copiesAs_flattenedCopy {start : Model} (complete : start.Complete) (policy : PathPolicy)
    (depth : Nat) :
    start.CopiesAs (fun model id => model.flattenedCopy policy id depth)
      fun model original copy =>
        Declares model copy (start.flattenedAttributes policy original depth) := by
  intro model original kept existing
  have inserted := model.inserted_flattenedCopy policy original depth
  rw [kept.flattenedAttributes complete policy existing depth] at inserted
  exact ⟨(model.entityAt original).blankCopy original, _, rfl, kept.name existing, rfl, inserted,
    inserted.declares⟩

theorem copiesAs_targetCopy {start : Model}
    (there : ∀ id, ∀ listed ∈ (start.entityAt id).attributes, start.HasAttribute listed) :
    start.CopiesAs (fun model id => pure (model.targetCopy id))
      fun model original copy => Declares model copy (start.declaredAttributes original) := by
  intro model original kept existing
  have inserted := model.inserted_targetCopy original
  rw [kept.declaredAttributes existing (there original)] at inserted
  refine ⟨_, _, ?_, ?_, ?_, inserted, inserted.declares⟩
  exacts [rfl, kept.name existing, rfl]

/-- Copying in progress: the originals that are done have a copy each, of which a certain fact holds,
and nothing else is new. -/
structure CopiesMade (start : Model) (fact : Model → EntityId → EntityId → Prop)
    (done : List EntityId) (state : Copying) : Prop where
  apart : GrownApart start state.model
  copied : ∀ original ∈ done, ∃ copy, state.copies.copyOf? original = some copy
  copies : ∀ pair ∈ state.copies, pair.1 ∈ done ∧ IsCopy start state.model pair.1 pair.2 ∧
    fact state.model pair.1 pair.2
  only : ∀ id, ¬ start.HasEntity id → state.model.HasEntity id →
    ∃ original, state.copies.copyOf? original = some id

section

variable {start : Model} {fact : Model → EntityId → EntityId → Prop}

theorem IsCopy.extends {model after : Model} {original copy : EntityId}
    (made : IsCopy start model original copy) (kept : model.Extends after) :
    IsCopy start after original copy where
  new := made.new
  there := kept.hasEntity made.there
  name := (kept.name made.there).trans made.name
  copyOf := (congrArg Entity.copyOf (kept.entityAt made.there)).trans made.copyOf

theorem Inserted.isCopy {model after : Model} {entity : Entity} {attributes : List Attribute}
    (inserted : Inserted model entity attributes after) (kept : start.Extends model)
    {original : EntityId} (named : entity.name = start.name original)
    (remembers : entity.copyOf = some original) :
    IsCopy start after original model.nextEntity where
  new := kept.not_hasEntity_nextEntity
  there := inserted.hasEntity
  name := (congrArg Entity.name inserted.entity).trans named
  copyOf := (congrArg Entity.copyOf inserted.entity).trans remembers

-- An original is copied once: its pair would take the place of an earlier one.
theorem CopiesMade.step (stays : KeptByGrowth fact) {copy : Model → EntityId → Noted Model}
    (copies : start.CopiesAs copy fact) {done : List EntityId} {state : Copying}
    (made : CopiesMade start fact done state) {original : EntityId}
    (existing : start.HasEntity original) (fresh : original ∉ done) :
    CopiesMade start fact (done ++ [original])
      ⟨(copy state.model original).value,
        state.copies.insert original state.model.nextEntity⟩ := by
  obtain ⟨entity, attributes, orphan, named, remembers, inserted, holds⟩ :=
    copies state.model original made.apart.kept existing
  refine ⟨made.apart.inserted inserted orphan,
    EntityCopies.exists_copyOf?_insert made.copied original _, ?copies, ?only⟩
  case copies =>
    intro pair member
    rcases mem_insertPair member with rfl | earlier
    · exact ⟨by simp, inserted.isCopy made.apart.kept named remembers, holds⟩
    · obtain ⟨among, isCopy, held⟩ := made.copies pair earlier
      exact ⟨List.mem_append_left _ among, isCopy.extends inserted.kept,
        stays _ _ _ _ isCopy.there inserted.kept held⟩
  case only =>
    intro id new there
    simp only [EntityCopies.copyOf?_insert]
    by_cases before : state.model.HasEntity id
    · obtain ⟨earlier, found⟩ := made.only id new before
      have other : earlier ≠ original := fun same =>
        fresh (same ▸ (made.copies _ (EntityCopies.mem_of_copyOf? found)).1)
      exact ⟨earlier, (if_neg other).trans found⟩
    · refine ⟨original, (if_pos rfl).trans ?_⟩
      rw [inserted.eq_nextEntity there before]

/-- What every copy keeps, from the model and no copies to the copies of all the entities in an
order that has each of them once. -/
theorem copyEach_of_nodup {copy : Model → EntityId → Noted Model}
    {motive : List EntityId → Copying → Prop} {order : List EntityId} (once : order.Nodup)
    (initial : motive [] { model := start })
    (next : ∀ done original (state : Copying), original ∈ order → original ∉ done →
      motive done state → motive (done ++ [original])
        ⟨(copy state.model original).value,
          state.copies.insert original state.model.nextEntity⟩) :
    motive order (copyEach copy start order).value := by
  unfold copyEach
  rw [Noted.value_foldlM]
  exact foldl_of_nodup once initial next

theorem copiesMade_copyEach (stays : KeptByGrowth fact) {copy : Model → EntityId → Noted Model}
    (copies : start.CopiesAs copy fact) {order : List EntityId} (once : order.Nodup)
    (existing : ∀ original ∈ order, start.HasEntity original) :
    CopiesMade start fact order (copyEach copy start order).value := by
  refine copyEach_of_nodup once ⟨.refl start, by simp, by simp, ?_⟩ ?_
  · exact fun id new there => absurd there new
  · exact fun done original state member fresh made =>
      made.step stays copies (existing original member) fresh

/-! ## What is left when the copies are done -/

/-- The outcome of copying some entities of a model: all that was there is unchanged and is found by
the same names, and the new entities are one copy of each of them. -/
structure CopiedApart (start : Model) (entities : List EntityId) (result : Copying) : Prop where
  kept : start.Extends result.model
  named : ∀ asked, result.model.entityNamed? asked = start.entityNamed? asked
  copied : ∀ original ∈ entities, ∃ copy, result.copies.copyOf? original = some copy ∧
    ∀ id, (¬ start.HasEntity id ∧ result.model.HasEntity id ∧
      (result.model.entityAt id).copyOf = some original) ↔ id = copy
  only : ∀ id, ¬ start.HasEntity id → result.model.HasEntity id →
    ∃ original ∈ entities, result.copies.copyOf? original = some id

theorem IsCopy.sameLabels {model after : Model} {original copy : EntityId}
    (made : IsCopy start model original copy) (same : SameLabels model after) :
    IsCopy start after original copy where
  new := made.new
  there := Nat.lt_of_lt_of_eq made.there same.count.symm
  name := (same.name copy).trans made.name
  copyOf := (same.copyOf copy).trans made.copyOf

theorem CopiesMade.new {done : List EntityId} {state : Copying}
    (made : CopiesMade start fact done state) (copy : EntityId)
    (among : EntityCopies.HasCopy state.copies copy) : ¬ start.HasEntity copy := by
  obtain ⟨pair, member, rfl⟩ := among
  exact (made.copies pair member).2.1.new

-- Whatever is done to the copies, who they are copies of stays as it was when they were made.
theorem CopiesMade.copiedApart {done entities : List EntityId} {state : Copying}
    (made : CopiesMade start fact done state)
    (existing : ∀ original ∈ done, start.HasEntity original)
    (asked : ∀ id, id ∈ done ↔ id ∈ entities) {after : Model} (apart : GrownApart start after)
    (same : SameLabels state.model after) (indexed : NamesIndexed start)
    (leads : Leads start after) : CopiedApart start entities ⟨after, state.copies⟩ := by
  have copies : ∀ original copy, state.copies.copyOf? original = some copy →
      original ∈ done ∧ IsCopy start after original copy := by
    intro original copy found
    obtain ⟨among, isCopy, _⟩ := made.copies _ (EntityCopies.mem_of_copyOf? found)
    exact ⟨among, isCopy.sameLabels same⟩
  have only : ∀ id, ¬ start.HasEntity id → after.HasEntity id →
      ∃ original, state.copies.copyOf? original = some id := fun id new there =>
    made.only id new (Nat.lt_of_lt_of_eq there same.count)
  refine ⟨apart.kept, apart.kept.entityNamed? indexed (leads.namesIndexed indexed) ?names, ?copied,
    ?only⟩
  case names =>
    intro id there new
    obtain ⟨original, found⟩ := only id new there
    obtain ⟨among, isCopy⟩ := copies original id found
    exact ⟨original, existing original among, isCopy.name.symm⟩
  case copied =>
    intro original member
    obtain ⟨copy, found⟩ := made.copied original ((asked original).mpr member)
    refine ⟨copy, found, fun id => ⟨fun ⟨new, there, remembers⟩ => ?_, ?_⟩⟩
    · obtain ⟨other, foundToo⟩ := only id new there
      have originals : original = other :=
        Option.some.inj (remembers.symm.trans (copies other id foundToo).2.copyOf)
      subst originals
      exact Option.some.inj (foundToo.symm.trans found)
    · rintro rfl
      have isCopy := (copies original id found).2
      exact ⟨isCopy.new, isCopy.there, isCopy.copyOf⟩
  case only =>
    intro id new there
    obtain ⟨original, found⟩ := only id new there
    exact ⟨original, (asked original).mp (copies original id found).1, found⟩

end

section

variable {model : Model} {entities : List EntityId}
  (listed : ∀ original ∈ entities, model.HasEntity original)

include listed

theorem copiesMade_superclassFirst {fact : Model → EntityId → EntityId → Prop}
    (stays : KeptByGrowth fact) {copy : Model → EntityId → Noted Model}
    (copies : model.CopiesAs copy fact) :
    CopiesMade model fact (model.superclassFirstOrder entities)
      (copyEach copy model (model.superclassFirstOrder entities)).value :=
  copiesMade_copyEach stays copies (model.nodup_superclassFirstOrder entities)
    fun original member => listed original (model.mem_superclassFirstOrder.mp member)

theorem CopiesMade.superclassFirst_copiedApart {fact : Model → EntityId → EntityId → Prop}
    {state : Copying}
    (made : CopiesMade model fact (model.superclassFirstOrder entities) state)
    {after : Model} (apart : GrownApart model after) (same : SameLabels state.model after)
    (indexed : NamesIndexed model) (leads : Leads model after) :
    CopiedApart model entities ⟨after, state.copies⟩ :=
  made.copiedApart (fun original member => listed original (model.mem_superclassFirstOrder.mp member))
    (fun _ => model.mem_superclassFirstOrder) apart same indexed leads

variable (intact : model.Intact)

include intact

-- Generalization links are all that changes after the copies are made.
theorem flattenModel_copiedApart (policy : PathPolicy) (depth : Nat) :
    CopiedApart model entities (model.flattenModel entities policy depth).value ∧
      ∀ original ∈ entities, ∃ copy,
        (model.flattenModel entities policy depth).value.copies.copyOf? original = some copy ∧
        (model.flattenModel entities policy depth).value.model.declaredAttributes copy =
          model.flattenedAttributes policy original depth := by
  have complete := intact.reachable.complete intact.farEndsExist
  have made := copiesMade_superclassFirst listed
    (keptByGrowth_declares fun original => model.flattenedAttributes policy original depth)
    (copiesAs_flattenedCopy complete policy depth)
  let copying := (copyEach (fun model id => model.flattenedCopy policy id depth) model
    (model.superclassFirstOrder entities)).value
  have carried := carriesLinks_copyInheritances copying.model copying.copies
  refine ⟨made.superclassFirst_copiedApart listed (made.apart.carriesLinks made.new carried)
    carried.sameButLinks.sameLabels intact.reachable.namesIndexed
    (model.leads_flattenModel entities policy depth), fun original member => ?_⟩
  obtain ⟨copy, found⟩ := made.copied original (model.mem_superclassFirstOrder.mpr member)
  have declares := (made.copies _ (EntityCopies.mem_of_copyOf? found)).2.2
  exact ⟨copy, found, (carried.sameButLinks.declaredAttributes copy).trans declares.declared⟩

theorem targetSchema_copiedApart :
    CopiedApart model entities (model.targetSchema entities).value := by
  have complete := intact.reachable.complete intact.farEndsExist
  have made := copiesMade_superclassFirst listed (keptByGrowth_declares model.declaredAttributes)
    (copiesAs_targetCopy complete.attributes)
  let copying := (copyEach (fun model id => pure (model.targetCopy id)) model
    (model.superclassFirstOrder entities)).value
  have links := carriesLinks_copyInheritances copying.model copying.copies
  have linked := made.apart.carriesLinks made.new links
  have associations := carriesAssociations_copyToTarget
    (copying.model.copyInheritances copying.copies).value copying.copies
  exact made.superclassFirst_copiedApart listed
    (linked.carriesAssociations made.new linked.kept associations)
    (links.sameButLinks.sameLabels.trans associations.sameLabels) intact.reachable.namesIndexed
    (model.leads_targetSchema entities)

end

/-- Flattening entities and building a target schema from them leave the model apart, and a flattened
copy has the attributes that it would have if it were made alone. -/
theorem Intact.copiesStayApart {model : Model} (intact : model.Intact) {entities : List EntityId}
    (listed : ∀ original ∈ entities, model.HasEntity original) (policy : PathPolicy) (depth : Nat) :
    model.CopiedApart entities (model.flattenModel entities policy depth).value ∧
      (∀ original ∈ entities, ∃ copy,
        (model.flattenModel entities policy depth).value.copies.copyOf? original = some copy ∧
        (model.flattenModel entities policy depth).value.model.declaredAttributes copy =
          model.attributesOfCopy policy original depth) ∧
      model.CopiedApart entities (model.targetSchema entities).value := by
  obtain ⟨apart, attributes⟩ := flattenModel_copiedApart listed intact policy depth
  refine ⟨apart, fun original member => ?_, targetSchema_copiedApart listed intact⟩
  rw [attributesOfCopy_eq]
  exact attributes original member

theorem intact_shop : shop.Intact := by
  have entities : ([Edit.insertEntity (.named "Person"), .insertEntity (.named "Order")].foldl
      Edit.apply .empty).Intact := Intact.empty.of_edits (by decide) (by decide)
  have features := entities.of_edits
    (show EditsFit _ [.attachAttribute ⟨1⟩
        { name := "total", type := .primitive "double", owner := ⟨1⟩ },
      .addAssociation { entity1 := ⟨0⟩, entity2 := ⟨1⟩, role2 := "orders", card2 := .many },
      .addAssociation { entity1 := ⟨1⟩, entity2 := ⟨0⟩, role2 := "buyer" },
      .linkInverse ⟨0⟩ ⟨1⟩] by decide) (by decide)
  exact features

/-- An order that is asked for twice is copied once, before the person that is copied with it. -/
theorem copiesStayApart_shop :
    shop.Intact ∧ (∀ original ∈ [⟨1⟩, ⟨0⟩, ⟨1⟩], shop.HasEntity original) ∧
      shop.CopiedApart [⟨1⟩, ⟨0⟩, ⟨1⟩] (shop.flattenModel [⟨1⟩, ⟨0⟩, ⟨1⟩] .strict 2).value ∧
      (shop.flattenModel [⟨1⟩, ⟨0⟩, ⟨1⟩] .strict 2).value.model.declaredAttributes ⟨2⟩ =
        shop.attributesOfCopy .strict ⟨1⟩ 2 ∧
      shop.CopiedApart [⟨1⟩, ⟨0⟩, ⟨1⟩] (shop.targetSchema [⟨1⟩, ⟨0⟩, ⟨1⟩]).value := by
  have listed : ∀ original ∈ [⟨1⟩, ⟨0⟩, ⟨1⟩], shop.HasEntity original := by decide
  obtain ⟨flattened, attributes, target⟩ := intact_shop.copiesStayApart listed .strict 2
  obtain ⟨copy, found, declared⟩ := attributes ⟨1⟩ (by decide)
  have second : copy = ⟨2⟩ := by
    have known : (shop.flattenModel [⟨1⟩, ⟨0⟩, ⟨1⟩] .strict 2).value.copies.copyOf? ⟨1⟩ =
      some ⟨2⟩ := by decide +kernel
    exact Option.some.inj (found.symm.trans known)
  exact ⟨intact_shop, listed, flattened, second ▸ declared, target⟩

end ClassModel.Model
