import ClassModel.Proofs.Copies.TargetSchema
import ClassModel.Proofs.Model.FarEnds

/-! The two directions of a relationship.

Linking two associations writes the inverse of each of them. An association that was the inverse of
either before is not written, and goes on naming a partner that names another one now. Inverses
therefore agree for as long as no link takes an association away from a third one. Copies are
linked to the copies of partners only, so copying takes away nothing.
-/

set_option autoImplicit false

namespace ClassModel

namespace Model

/-- Whether linking two associations leaves no third one behind. -/
def Linkable (model : Model) (first second : AssociationId) : Prop :=
  (∀ partner ∈ (model.associationAt first).inverse, partner = first ∨ partner = second) ∧
    ∀ partner ∈ (model.associationAt second).inverse, partner = first ∨ partner = second

instance (model : Model) (first second : AssociationId) : Decidable (model.Linkable first second) :=
  inferInstanceAs (Decidable (_ ∧ _))

end Model

/-- Whether an edit leaves no association behind, and adds none that names a partner already. -/
def Edit.KeepsPartners (model : Model) : Edit → Prop
  | .addAssociation added => added.inverse = none
  | .linkInverse first second => model.Linkable first second
  | _ => True

instance (model : Model) : (edit : Edit) → Decidable (edit.KeepsPartners model)
  | .addAssociation added => inferInstanceAs (Decidable (added.inverse = none))
  | .linkInverse first second => inferInstanceAs (Decidable (model.Linkable first second))
  | .insertEntity _ | .attachAttribute _ _ | .removeAttribute _ _ | .removeAssociation _ _
  | .addOperation _ | .addInvariant _ | .setSuperclass _ _ | .addParent _ _
  | .removeGeneralization _ _ => .isTrue trivial

namespace Model

/-- Edits each of which leaves no association behind in the model that the earlier ones leave. -/
def EditsKeepPartners (model : Model) : List Edit → Prop
  | [] => True
  | edit :: rest => edit.KeepsPartners model ∧ EditsKeepPartners (edit.apply model) rest

instance (model : Model) (edits : List Edit) : Decidable (EditsKeepPartners model edits) :=
  match edits with
  | [] => .isTrue trivial
  | edit :: rest =>
    haveI : Decidable (EditsKeepPartners (edit.apply model) rest) :=
      instDecidableEditsKeepPartners (edit.apply model) rest
    inferInstanceAs
      (Decidable (edit.KeepsPartners model ∧ EditsKeepPartners (edit.apply model) rest))

/-! ## Edits -/

namespace InversesAgree

variable {model : Model} (agree : model.InversesAgree)

include agree

theorem of_inverses {after : Model}
    (same : ∀ id, (after.associationAt id).inverse = (model.associationAt id).inverse) :
    after.InversesAgree := by
  intro first second named
  rw [same] at named ⊢
  exact agree first second named

theorem of_associations {after : Model} (same : after.associations = model.associations) :
    after.InversesAgree :=
  agree.of_inverses fun id => by simp only [associationAt, same]

-- Nothing names the new association, since an association without a place names nothing.
theorem addAssociation {added : Association} (alone : added.inverse = none) :
    (model.addAssociation added).InversesAgree := by
  intro first second named
  rw [associationAt_addAssociation] at named ⊢
  split at named
  · rw [alone] at named
    cases named
  · have back := agree first second named
    rw [if_neg, back]
    rintro rfl
    have blank : model.associationAt model.nextAssociation = default := by
      simp [associationAt, nextAssociation]
    rw [blank] at back
    cases back

theorem linkInverse_iff {first second : AssociationId} (firstThere : model.HasAssociation first)
    (secondThere : model.HasAssociation second) :
    (model.linkInverse first second).InversesAgree ↔ model.Linkable first second := by
  have linked := inverse_linkInverse firstThere secondThere
  constructor
  · -- A third association keeps naming the side it was linked to, which names it no more.
    intro after
    have within : ∀ side, side = first ∨ side = second →
        ∀ partner ∈ (model.associationAt side).inverse, partner = first ∨ partner = second := by
      intro side either partner named
      by_contra third
      obtain ⟨notFirst, notSecond⟩ := not_or.mp third
      have back := after partner side (by
        rw [linked, if_neg notSecond, if_neg notFirst, agree side partner named])
      rw [linked] at back
      split at back
      · exact notFirst (Option.some.inj back).symm
      · rename_i other
        rw [if_pos (either.resolve_right other)] at back
        exact notSecond (Option.some.inj back).symm
    exact ⟨within first (.inl rfl), within second (.inr rfl)⟩
  · rintro ⟨ofFirst, ofSecond⟩ asked partner named
    rw [linked] at named
    split at named
    · rename_i asSecond
      obtain rfl := Option.some.inj named
      rw [linked, asSecond]
      split
      · rename_i same
        rw [same]
      · exact if_pos rfl
    · split at named
      · rename_i asFirst
        obtain rfl := Option.some.inj named
        rw [linked, if_pos rfl, asFirst]
      · rename_i notSecond notFirst
        have back := agree asked partner named
        have other : partner ≠ first ∧ partner ≠ second := by
          constructor
          · rintro rfl
            exact (ofFirst asked back).elim notFirst notSecond
          · rintro rfl
            exact (ofSecond asked back).elim notFirst notSecond
        rw [linked, if_neg other.2, if_neg other.1, back]

theorem edit {edit : Edit} (fits : edit.Fits model) (keeps : edit.KeepsPartners model) :
    (edit.apply model).InversesAgree := by
  cases edit with
  | addAssociation added => exact agree.addAssociation keeps
  | linkInverse first second => exact (agree.linkInverse_iff fits.1 fits.2).mpr keeps
  | setSuperclass child parent =>
    exact agree.of_associations (sameButLinks_setSuperclass model child parent).associations
  | addParent child parent =>
    exact agree.of_associations (sameButLinks_addParent model child parent).associations
  | _ => exact agree.of_associations rfl

theorem edits {edits : List Edit} (fit : EditsFit model edits)
    (keep : EditsKeepPartners model edits) : (edits.foldl Edit.apply model).InversesAgree := by
  induction edits generalizing model with
  | nil => exact agree
  | cons edit rest ih => exact ih (agree.edit fit.1 keep.1) fit.2 keep.2

theorem changeAssociation (id : AssociationId) {change : Association → Association}
    (kept : ∀ association, (change association).structural = association.structural) :
    (model.modifyAssociation id change).InversesAgree :=
  agree.of_inverses fun asked => part_modifyAssociation Association.inverse model id asked change
    fun association => (congrArg Association.inverse (kept association) :)

theorem load (document : Document) (provenance : Provenance)
    (keep : EditsKeepPartners model (document.script model provenance).edits) :
    (model.load document provenance).model.InversesAgree := by
  rw [load_model]
  exact agree.edits (model.editsFit_script document provenance) keep

/-! ## Repair and copies of entities -/

theorem sameButLinks {after : Model} (same : SameButLinks model after) : after.InversesAgree :=
  agree.of_associations same.associations

theorem inserted {entity : Entity} {attributes : List Attribute} {after : Model}
    (inserted : Inserted model entity attributes after) : after.InversesAgree :=
  agree.of_associations inserted.associations

theorem allSubclasses (id : EntityId) : (model.allSubclasses id).model.InversesAgree :=
  agree.sameButLinks (sameButLinks_visit _ [id] { model } id)

theorem leafSubclasses (id : EntityId) : (model.leafSubclasses id).model.InversesAgree :=
  (agree.allSubclasses id).of_associations rfl

theorem flattenedCopy (policy : PathPolicy) (id : EntityId) (depth : Nat) :
    (model.flattenedCopy policy id depth).value.InversesAgree :=
  agree.inserted (model.inserted_flattenedCopy policy id depth)

theorem targetCopy (id : EntityId) : (model.targetCopy id).InversesAgree :=
  agree.inserted (model.inserted_targetCopy id)

theorem copyInheritances (copies : EntityCopies) :
    (model.copyInheritances copies).value.InversesAgree :=
  agree.sameButLinks (carriesLinks_copyInheritances model copies).sameButLinks

end InversesAgree

/-! ## Copies of associations -/

/-- Associations being copied: the copies are different and none of them is linked yet. -/
structure CopiesUnlinked (state : AssociationCopying) : Prop where
  agree : state.model.InversesAgree
  inOrder : InOrder AssociationId.index state.copied
  there : ∀ pair ∈ state.copied, state.model.HasAssociation pair.2
  unlinked : ∀ pair ∈ state.copied, (state.model.associationAt pair.2).inverse = none
  distinct : ∀ first second copy, state.copied.lookup first = some copy →
    state.copied.lookup second = some copy → first = second

theorem CopiesUnlinked.add {state : AssociationCopying} (soFar : CopiesUnlinked state)
    {added : Association} (alone : added.inverse = none) (role : AssociationId) :
    CopiesUnlinked ⟨state.model.addAssociation added,
      insertPair AssociationId.index role state.model.nextAssociation state.copied⟩ := by
  have older : ∀ pair ∈ state.copied, pair.2 ≠ state.model.nextAssociation := by
    intro pair member same
    have there := soFar.there pair member
    rw [same] at there
    exact Nat.lt_irrefl _ there
  refine ⟨soFar.agree.addAssociation alone, soFar.inOrder.insertPair, ?there, ?unlinked, ?distinct⟩
  case there =>
    intro pair member
    have grown := (state.model.noLarger_addAssociation added).associations
    rcases mem_insertPair member with rfl | earlier
    · simp [HasAssociation, nextAssociation, addAssociation, modifyEntity]
    · exact Nat.lt_of_lt_of_le (soFar.there pair earlier) grown
  case unlinked =>
    intro pair member
    dsimp only
    rw [associationAt_addAssociation]
    rcases mem_insertPair member with rfl | earlier
    · rw [if_pos rfl, alone]
    · rw [if_neg (older pair earlier), soFar.unlinked pair earlier]
  case distinct =>
    exact lookup_insertPair_injective (fun _ _ same => congrArg AssociationId.mk same)
      soFar.distinct fun earlier known => older _ (mem_of_lookup known) rfl

theorem CopiesUnlinked.copyAssociation {state : AssociationCopying} (soFar : CopiesUnlinked state)
    (copies : EntityCopies) (original : EntityId) (role : AssociationId) :
    CopiesUnlinked (Model.copyAssociation copies original state role).value := by
  cases copied : copies.copyOf? (state.model.far role) with
  | none =>
    rw [copyAssociation_of_none original copied]
    exact soFar
  | some far =>
    rw [copyAssociation_of_some original copied]
    exact soFar.add rfl role

theorem InversesAgree.copiesUnlinked {model : Model} (agree : model.InversesAgree)
    (copies : EntityCopies) (order : List EntityId) :
    CopiesUnlinked
      (order.foldlM (copyAssociationsOf copies) ({ model } : AssociationCopying)).value := by
  rw [Noted.value_foldlM]
  refine List.foldlRecOn (motive := CopiesUnlinked) order _ ?_ fun state soFar original _ => ?_
  · exact ⟨agree, .nil, by simp, by simp, by simp⟩
  · unfold copyAssociationsOf
    rw [Noted.value_foldlM]
    exact List.foldlRecOn (motive := CopiesUnlinked) _ _ soFar
      fun state soFar role _ => soFar.copyAssociation copies original role

/-- Copies being linked: a copy that has a partner is the copy of an association whose partner was
copied as well, and that copy is its partner. -/
structure CopiesPaired (copied : List (AssociationId × AssociationId)) (model : Model) : Prop where
  agree : model.InversesAgree
  there : ∀ pair ∈ copied, model.HasAssociation pair.2
  paired : ∀ original copy, copied.lookup original = some copy →
    ∀ partner, (model.associationAt copy).inverse = some partner →
      model.inverseCopy? copied original = some partner

section

variable {copied : List (AssociationId × AssociationId)} {model : Model}
  (distinct : ∀ first second copy, copied.lookup first = some copy →
    copied.lookup second = some copy → first = second)

include distinct

-- Each of the two copies may be linked to the other one already, and to nothing else.
theorem CopiesPaired.link (soFar : CopiesPaired copied model)
    {original copy partner : AssociationId} (known : copied.lookup original = some copy)
    (target : model.inverseCopy? copied original = some partner) :
    CopiesPaired copied (model.linkInverse copy partner) := by
  obtain ⟨inverse, named, knownInverse⟩ := Option.bind_eq_some_iff.mp target
  have back : model.inverseCopy? copied inverse = some copy := by
    rw [inverseCopy?, soFar.agree original inverse named]
    exact known
  have ofCopy : ∀ other ∈ (model.associationAt copy).inverse, other = partner :=
    fun other linked => Option.some.inj
      ((soFar.paired original copy known other linked).symm.trans target)
  have ofPartner : ∀ other ∈ (model.associationAt partner).inverse, other = copy :=
    fun other linked => Option.some.inj
      ((soFar.paired inverse partner knownInverse other linked).symm.trans back)
  have copyThere : model.HasAssociation copy := soFar.there _ (mem_of_lookup known)
  have partnerThere : model.HasAssociation partner := soFar.there _ (mem_of_lookup knownInverse)
  have linked := inverse_linkInverse copyThere partnerThere
  have grown : ∀ {role other}, model.inverseCopy? copied role = some other →
      (model.linkInverse copy partner).inverseCopy? copied role = some other := by
    intro role other found
    obtain ⟨direction, was, knownDirection⟩ := Option.bind_eq_some_iff.mp found
    refine Option.bind_eq_some_iff.mpr ⟨direction, ?_, knownDirection⟩
    rw [linked]
    split
    · rename_i here
      rw [ofPartner direction (here ▸ was)]
    · split
      · rename_i here
        rw [ofCopy direction (here ▸ was)]
      · exact was
  refine ⟨?agree, ?there, ?paired⟩
  case agree =>
    exact (soFar.agree.linkInverse_iff copyThere partnerThere).mpr
      ⟨fun other among => .inr (ofCopy other among),
        fun other among => .inl (ofPartner other among)⟩
  case there =>
    exact fun pair member => Nat.lt_of_lt_of_le (soFar.there pair member)
      (model.noLarger_linkInverse copy partner).associations
  case paired =>
    intro other otherCopy knownToo third found
    rw [linked] at found
    split at found
    · rename_i here
      obtain rfl := distinct other inverse otherCopy knownToo (here ▸ knownInverse)
      exact grown (back.trans found)
    · split at found
      · rename_i here
        obtain rfl := distinct other original otherCopy knownToo (here ▸ known)
        exact grown (target.trans found)
      · exact grown (soFar.paired other otherCopy knownToo third found)

theorem CopiesPaired.linkCopiedInverse (soFar : CopiesPaired copied model)
    {pair : AssociationId × AssociationId} (known : copied.lookup pair.1 = some pair.2) :
    CopiesPaired copied (linkCopiedInverse copied model pair) := by
  unfold Model.linkCopiedInverse
  split
  · rename_i partner target
    exact soFar.link distinct known target
  · exact soFar

end

theorem CopiesUnlinked.inversesAgree_linked {state : AssociationCopying}
    (copying : CopiesUnlinked state) :
    (state.copied.foldl (linkCopiedInverse state.copied) state.model).InversesAgree := by
  have start : CopiesPaired state.copied state.model := by
    refine ⟨copying.agree, copying.there, fun original copy known partner linked => ?_⟩
    rw [copying.unlinked _ (mem_of_lookup known)] at linked
    cases linked
  refine (List.foldlRecOn (motive := CopiesPaired state.copied) state.copied _ start
    fun model soFar pair member => ?_).agree
  exact soFar.linkCopiedInverse copying.distinct (copying.inOrder.lookup member)

namespace InversesAgree

variable {model : Model} (agree : model.InversesAgree)

include agree

theorem copyToTarget (copies : EntityCopies) :
    (model.copyToTarget copies).value.1.InversesAgree := by
  have linked := (agree.copiesUnlinked copies
    (model.superclassFirstOrder copies.originals)).inversesAgree_linked
  exact linked.of_associations (foldl_retargetAttributes_parts copies (copies.map Prod.snd)).2

theorem flattenModel (entities : List EntityId) (policy : PathPolicy) (depth : Nat) :
    (model.flattenModel entities policy depth).value.model.InversesAgree :=
  (holds_copyEach InversesAgree (fun model id => model.flattenedCopy policy id depth)
    (fun agree id => agree.flattenedCopy policy id depth) agree
    (model.superclassFirstOrder entities)).copyInheritances _

theorem targetSchema (entities : List EntityId) :
    (model.targetSchema entities).value.model.InversesAgree :=
  ((holds_copyEach InversesAgree (fun model id => pure (model.targetCopy id))
    (fun agree id => agree.targetCopy id) agree
    (model.superclassFirstOrder entities)).copyInheritances _).copyToTarget _

end InversesAgree

/-! ## Models in which no association was left behind -/

/-- A reachable model in whose history no link, made by an edit or by a document, took an
association away from a third one. -/
inductive Paired : Model → Prop where
  | empty : Paired .empty
  | edit {model : Model} (paired : Paired model) (edit : Edit) (fits : edit.Fits model)
      (keeps : edit.KeepsPartners model) : Paired (edit.apply model)
  | settings {model : Model} (paired : Paired model) (id : EntityId) (change : Entity → Entity)
      (kept : ∀ entity, (change entity).structural = entity.structural) :
      Paired (model.modifyEntity id change)
  | changeAttribute {model : Model} (paired : Paired model) (id : AttributeId)
      (change : Attribute → Attribute) : Paired (model.modifyAttribute id change)
  | changeAssociation {model : Model} (paired : Paired model) (id : AssociationId)
      (change : Association → Association)
      (kept : ∀ association, (change association).structural = association.structural) :
      Paired (model.modifyAssociation id change)
  | load {model : Model} (paired : Paired model) (document : Document) (provenance : Provenance)
      (keep : EditsKeepPartners model (document.script model provenance).edits) :
      Paired (model.load document provenance).model
  | allSubclasses {model : Model} (paired : Paired model) (id : EntityId) :
      Paired (model.allSubclasses id).model
  | leafSubclasses {model : Model} (paired : Paired model) (id : EntityId) :
      Paired (model.leafSubclasses id).model
  | flattenedCopy {model : Model} (paired : Paired model) (policy : PathPolicy) (id : EntityId)
      (depth : Nat) : Paired (model.flattenedCopy policy id depth).value
  | targetCopy {model : Model} (paired : Paired model) (id : EntityId) :
      Paired (model.targetCopy id)
  | copyInheritances {model : Model} (paired : Paired model) (copies : EntityCopies)
      (exist : ∀ pair ∈ copies, model.HasEntity pair.2) :
      Paired (model.copyInheritances copies).value
  | copyToTarget {model : Model} (paired : Paired model) (copies : EntityCopies)
      (exist : ∀ pair ∈ copies, model.HasEntity pair.2) :
      Paired (model.copyToTarget copies).value.1
  | flattenModel {model : Model} (paired : Paired model) (entities : List EntityId)
      (policy : PathPolicy) (depth : Nat) :
      Paired (model.flattenModel entities policy depth).value.model
  | targetSchema {model : Model} (paired : Paired model) (entities : List EntityId) :
      Paired (model.targetSchema entities).value.model

theorem Paired.inversesAgree {model : Model} (paired : model.Paired) : model.InversesAgree := by
  induction paired with
  | empty => exact fun first second named => nomatch named
  | edit _ _ fits keeps ih => exact ih.edit fits keeps
  | settings _ id change kept ih => exact ih.of_associations rfl
  | changeAttribute _ id change ih => exact ih.of_associations rfl
  | changeAssociation _ id change kept ih => exact ih.changeAssociation id kept
  | load _ document provenance keep ih => exact ih.load document provenance keep
  | allSubclasses _ id ih => exact ih.allSubclasses id
  | leafSubclasses _ id ih => exact ih.leafSubclasses id
  | flattenedCopy _ policy id depth ih => exact ih.flattenedCopy policy id depth
  | targetCopy _ id ih => exact ih.targetCopy id
  | copyInheritances _ copies _ ih => exact ih.copyInheritances copies
  | copyToTarget _ copies _ ih => exact ih.copyToTarget copies
  | flattenModel _ entities policy depth ih => exact ih.flattenModel entities policy depth
  | targetSchema _ entities ih => exact ih.targetSchema entities

theorem Paired.reachable {model : Model} (paired : model.Paired) : model.Reachable := by
  induction paired with
  | empty => exact .empty
  | edit _ edit fits _ ih => exact ih.change (.edit edit fits)
  | settings _ id change kept ih => exact ih.change (.settings id change kept)
  | changeAttribute _ id change ih => exact ih.change (.changeAttribute id change)
  | changeAssociation _ id change kept ih => exact ih.change (.changeAssociation id change kept)
  | load _ document provenance _ ih => exact ih.load document provenance
  | allSubclasses _ id ih => exact ih.allSubclasses id
  | leafSubclasses _ id ih => exact ih.leafSubclasses id
  | flattenedCopy _ policy id depth ih => exact ih.flattenedCopy policy id depth
  | targetCopy _ id ih => exact ih.targetCopy id
  | copyInheritances _ copies exist ih => exact ih.copyInheritances copies exist
  | copyToTarget _ copies exist ih => exact ih.copyToTarget copies exist
  | flattenModel _ entities policy depth ih => exact ih.flattenModel entities policy depth
  | targetSchema _ entities ih => exact ih.targetSchema entities

theorem Paired.of_edits {model : Model} (paired : model.Paired) {edits : List Edit}
    (fit : EditsFit model edits) (keep : EditsKeepPartners model edits) :
    (edits.foldl Edit.apply model).Paired := by
  induction edits generalizing model with
  | nil => exact paired
  | cons edit rest ih => exact ih (paired.edit edit fit.1 keep.1) fit.2 keep.2

/-- The inverses of a model agree when no link took an association away from a third one, and the
next link breaks the agreement exactly when it does that. -/
theorem Paired.linkInverse_agrees_iff {model : Model} (paired : model.Paired)
    {first second : AssociationId} (firstThere : model.HasAssociation first)
    (secondThere : model.HasAssociation second) : model.InversesAgree ∧
      ((model.linkInverse first second).InversesAgree ↔ model.Linkable first second) :=
  ⟨paired.inversesAgree, paired.inversesAgree.linkInverse_iff firstThere secondThere⟩

/-- Orders with the person who buys, which are linked, and with the person who pays. -/
def invoices : Model :=
  [Edit.insertEntity (.named "Person"), .insertEntity (.named "Order"),
    .addAssociation { entity1 := ⟨0⟩, entity2 := ⟨1⟩, role2 := "orders", card2 := .many },
    .addAssociation { entity1 := ⟨1⟩, entity2 := ⟨0⟩, role2 := "buyer" },
    .addAssociation { entity1 := ⟨1⟩, entity2 := ⟨0⟩, role2 := "payer" },
    .linkInverse ⟨0⟩ ⟨1⟩].foldl Edit.apply .empty

theorem paired_invoices : invoices.Paired := Paired.empty.of_edits (by decide) (by decide)

theorem linkInverse_agrees_invoices :
    invoices.Paired ∧ invoices.HasAssociation ⟨0⟩ ∧ invoices.HasAssociation ⟨2⟩ ∧
      invoices.InversesAgree ∧
      ((invoices.linkInverse ⟨0⟩ ⟨2⟩).InversesAgree ↔ invoices.Linkable ⟨0⟩ ⟨2⟩) ∧
      ¬ invoices.Linkable ⟨0⟩ ⟨2⟩ := by
  have orders : invoices.HasAssociation ⟨0⟩ := by decide
  have payer : invoices.HasAssociation ⟨2⟩ := by decide
  obtain ⟨agree, broken⟩ := Paired.linkInverse_agrees_iff paired_invoices orders payer
  exact ⟨paired_invoices, orders, payer, agree, broken, by decide⟩

/-- Linked to the payer, the orders name the payer, and the buyer still names the orders. -/
theorem inverses_invoices_apart : (invoices.linkInverse ⟨0⟩ ⟨2⟩).Reachable ∧
    ((invoices.linkInverse ⟨0⟩ ⟨2⟩).associationAt ⟨1⟩).inverse = some ⟨0⟩ ∧
    ((invoices.linkInverse ⟨0⟩ ⟨2⟩).associationAt ⟨0⟩).inverse ≠ some ⟨1⟩ :=
  ⟨paired_invoices.reachable.change (.edit (.linkInverse ⟨0⟩ ⟨2⟩) (by decide)), by decide,
    by decide⟩

end Model

end ClassModel
