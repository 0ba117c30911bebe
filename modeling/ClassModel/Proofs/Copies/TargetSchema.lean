import ClassModel.Proofs.Copies.Associations
import ClassModel.Proofs.Log
import Mathlib.Data.List.Forall2

/-! Target schemas: associations and attribute types between the originals, told of their copies.

Retargeting a type twice changes nothing the second time, since no copy is an original.
-/

set_option autoImplicit false

namespace ClassModel

/-! ## Types -/

/-- The second type is the first one with every reference to a copied entity, at any depth, replaced
by a reference to its copy. -/
inductive TypeCopied (copies : EntityCopies) : TypeExpr → TypeExpr → Prop where
  | primitive (name : String) : TypeCopied copies (.primitive name) (.primitive name)
  | copied {id copy : EntityId} (found : copies.copyOf? id = some copy) :
      TypeCopied copies (.entity id) (.entity copy)
  | alone {id : EntityId} (missing : copies.copyOf? id = none) :
      TypeCopied copies (.entity id) (.entity id)
  | collection (kind : CollectionKind) {element elementCopy : TypeExpr}
      (copied : TypeCopied copies element elementCopy) :
      TypeCopied copies (.collection kind element) (.collection kind elementCopy)

theorem typeCopied_mapEntities (copies : EntityCopies) (type : TypeExpr) :
    TypeCopied copies type (type.mapEntities copies.retarget) := by
  induction type with
  | primitive name => exact .primitive name
  | entity id =>
    cases found : copies.copyOf? id with
    | none =>
      have same : copies.retarget id = id := by simp [EntityCopies.retarget, found]
      rw [TypeExpr.mapEntities, same]
      exact .alone found
    | some copy =>
      have target : copies.retarget id = copy := by simp [EntityCopies.retarget, found]
      rw [TypeExpr.mapEntities, target]
      exact .copied found
  | collection kind element ih => exact .collection kind ih

theorem TypeExpr.mapEntities_twice {replace : EntityId → EntityId}
    (twice : ∀ id, replace (replace id) = replace id) (type : TypeExpr) :
    (type.mapEntities replace).mapEntities replace = type.mapEntities replace := by
  induction type with
  | primitive name => rfl
  | entity id => simp only [mapEntities, twice]
  | collection kind element ih => simp only [mapEntities, ih]

/-- The attribute with its type retargeted. -/
def Attribute.retargeted (copies : EntityCopies) (declared : Attribute) : Attribute :=
  { declared with type := declared.type.mapEntities copies.retarget }

theorem Attribute.retargeted_twice {copies : EntityCopies}
    (twice : ∀ id, copies.retarget (copies.retarget id) = copies.retarget id) (declared : Attribute) :
    (declared.retargeted copies).retargeted copies = declared.retargeted copies := by
  simp only [retargeted, TypeExpr.mapEntities_twice twice]

/-- An attribute of a copy is the original one with its type copied. -/
structure AttributeCopied (copies : EntityCopies) (original copy : Attribute) : Prop where
  same : copy = { original with type := copy.type }
  type : TypeCopied copies original.type copy.type

theorem attributeCopied_retargeted (copies : EntityCopies) (declared : Attribute) :
    AttributeCopied copies declared (declared.retargeted copies) where
  same := rfl
  type := typeCopied_mapEntities copies declared.type

namespace Model

/-! ## Retargeting -/

section

variable {model : Model}

theorem attributeAt_modifyAttribute {changed asked : AttributeId} (change : Attribute → Attribute)
    (existing : model.HasAttribute asked) :
    (model.modifyAttribute changed change).attributeAt asked =
      if asked = changed then change (model.attributeAt asked) else model.attributeAt asked := by
  have there : asked.index < model.attributes.size := existing
  simp only [attributeAt, modifyAttribute, Array.getElem?_modify]
  by_cases here : asked = changed
  · subst here
    simp [there]
  · have apart : changed.index ≠ asked.index := by
      intro same
      cases changed
      cases asked
      exact here (congrArg AttributeId.mk same.symm)
    rw [if_neg apart, if_neg here]

-- An attribute may come more than once, since changing it again changes nothing.
theorem attributeAt_foldl_modifyAttribute {change : Attribute → Attribute}
    (twice : ∀ declared, change (change declared) = change declared) (ids : List AttributeId)
    {asked : AttributeId} (existing : model.HasAttribute asked) :
    (ids.foldl (fun model id => model.modifyAttribute id change) model).attributeAt asked =
      if asked ∈ ids then change (model.attributeAt asked) else model.attributeAt asked := by
  induction ids generalizing model with
  | nil => simp
  | cons first rest ih =>
    have there : (model.modifyAttribute first change).HasAttribute asked := by
      simpa [HasAttribute, modifyAttribute] using existing
    rw [List.foldl_cons, ih there, attributeAt_modifyAttribute change existing]
    by_cases here : asked = first
    · subst here
      simp [twice]
    · simp [here]

variable (model) in
theorem foldl_modifyAttribute_parts (change : Attribute → Attribute) (ids : List AttributeId) :
    (ids.foldl (fun model id => model.modifyAttribute id change) model).entities = model.entities ∧
      (ids.foldl (fun model id => model.modifyAttribute id change) model).associations =
        model.associations :=
  List.foldlRecOn (motive := fun state : Model => state.entities = model.entities ∧
    state.associations = model.associations) _ _ ⟨rfl, rfl⟩ fun _ same _ _ => same

-- Retargeting changes no list, so all the lists can be taken from the start.
theorem foldl_retargetAttributes (copies : EntityCopies) (order : List EntityId) :
    order.foldl (retargetAttributes copies) model =
      (order.flatMap fun copy => (model.entityAt copy).attributes).foldl
        (fun model id => model.modifyAttribute id (Attribute.retargeted copies)) model := by
  induction order generalizing model with
  | nil => rfl
  | cons first rest ih =>
    have same : ∀ copy, ((retargetAttributes copies model first).entityAt copy).attributes =
        (model.entityAt copy).attributes := by
      intro copy
      have entities : (retargetAttributes copies model first).entities = model.entities :=
        (model.foldl_modifyAttribute_parts (Attribute.retargeted copies) _).1
      simp only [entityAt, entities]
    rw [List.foldl_cons, ih, List.flatMap_cons, List.foldl_append]
    simp only [same]
    rfl

theorem foldl_retargetAttributes_parts (copies : EntityCopies) (order : List EntityId) :
    (order.foldl (retargetAttributes copies) model).entities = model.entities ∧
      (order.foldl (retargetAttributes copies) model).associations = model.associations := by
  rw [foldl_retargetAttributes]
  exact model.foldl_modifyAttribute_parts _ _

theorem foldl_linkCopiedInverse_parts (copied pairs : List (AssociationId × AssociationId)) :
    (pairs.foldl (linkCopiedInverse copied) model).entities = model.entities ∧
      (pairs.foldl (linkCopiedInverse copied) model).attributes = model.attributes := by
  refine List.foldlRecOn (motive := fun state : Model => state.entities = model.entities ∧
    state.attributes = model.attributes) _ _ ⟨rfl, rfl⟩ fun state same pair _ => ?_
  unfold linkCopiedInverse
  split
  · exact ⟨(state.entities_linkInverse _ _).trans same.1,
      (state.attributes_linkInverse _ _).trans same.2⟩
  · exact same

/-- Every attribute that a copy declares is retargeted. -/
theorem declaredAttributes_retargeted {copies : EntityCopies} {order : List EntityId}
    (twice : ∀ id, copies.retarget (copies.retarget id) = copies.retarget id) {copy : EntityId}
    (member : copy ∈ order)
    (there : ∀ id ∈ (model.entityAt copy).attributes, model.HasAttribute id) :
    (order.foldl (retargetAttributes copies) model).declaredAttributes copy =
      (model.declaredAttributes copy).map (Attribute.retargeted copies) := by
  let ids := order.flatMap fun copy => (model.entityAt copy).attributes
  rw [foldl_retargetAttributes]
  have lists : ((ids.foldl (fun model id =>
      model.modifyAttribute id (Attribute.retargeted copies)) model).entityAt copy).attributes =
        (model.entityAt copy).attributes := by
    simp only [entityAt, (model.foldl_modifyAttribute_parts (Attribute.retargeted copies) ids).1]
  unfold declaredAttributes
  rw [lists, List.map_map]
  refine List.map_congr_left fun id listed => ?_
  rw [attributeAt_foldl_modifyAttribute (Attribute.retargeted_twice twice) _ (there id listed),
    if_pos (List.mem_flatMap.mpr ⟨copy, member, listed⟩)]
  rfl

end

/-! ## Before the associations are copied -/

theorem KeptByGrowth.and {first second : Model → EntityId → EntityId → Prop}
    (firstStays : KeptByGrowth first) (secondStays : KeptByGrowth second) :
    KeptByGrowth fun model original copy => first model original copy ∧ second model original copy :=
  fun before after original copy existing kept ⟨one, other⟩ =>
    ⟨firstStays before after original copy existing kept one,
      secondStays before after original copy existing kept other⟩

theorem CopiesAs.and {start : Model} {copy : Model → EntityId → Noted Model}
    {first second : Model → EntityId → EntityId → Prop} (copies : start.CopiesAs copy first)
    (copiesToo : start.CopiesAs copy second) :
    start.CopiesAs copy fun model original copy =>
      first model original copy ∧ second model original copy := by
  intro model original kept existing
  obtain ⟨entity, attributes, orphan, named, remembers, inserted, holds⟩ :=
    copies model original kept existing
  obtain ⟨_, _, _, _, _, _, holdsToo⟩ := copiesToo model original kept existing
  exact ⟨entity, attributes, orphan, named, remembers, inserted, holds, holdsToo⟩

/-- A copy that has the attributes of its original and nothing else. -/
def CopyOfAttributes (start model : Model) (original copy : EntityId) : Prop :=
  CopyBare model original copy ∧ Declares model copy (start.declaredAttributes original)

section

variable {start : Model} {entities : List EntityId} {state : Copying} {begun : Model}

theorem CopiesMade.readyCopies (listed : ∀ original ∈ entities, start.HasEntity original)
    (made : CopiesMade start start.CopyOfAttributes (start.superclassFirstOrder entities) state)
    (apart : GrownApart start begun) (same : SameButLinks state.model begun) :
    ReadyCopies start begun state.copies where
  apart := apart
  new := made.new
  existing original copy found := listed original (start.mem_superclassFirstOrder.mp
    (made.isCopy found).1)
  there original copy found := Nat.lt_of_lt_of_eq (made.isCopy found).2.1.there same.count.symm
  distinct _ _ _ := made.distinct
  blank original copy found := by
    obtain ⟨_, _, bare, _⟩ := made.isCopy found
    exact (congrArg Entity.associations (same.entities copy) :).trans bare.associations

-- A copy is new, and only what was there has copies.
theorem ReadyCopies.retarget_twice {copies : EntityCopies} (ready : ReadyCopies start begun copies)
    (id : EntityId) : copies.retarget (copies.retarget id) = copies.retarget id := by
  cases found : copies.copyOf? id with
  | none => simp [EntityCopies.retarget, found]
  | some copy =>
    have missing : copies.copyOf? copy = none := by
      refine Option.eq_none_iff_forall_ne_some.mpr fun other foundToo => ?_
      exact ready.new copy (EntityCopies.hasCopy_of_copyOf? found)
        (ready.existing copy other foundToo)
    simp [EntityCopies.retarget, found, missing]

end

/-! ## Target schemas -/

/-- The copy of an association leads to the copy of its far end, and its own settings are those of
the original. -/
structure AssociationCopied (copies : EntityCopies) (original copy : Association) : Prop where
  far : copies.copyOf? original.entity2 = some copy.entity2
  role2 : copy.role2 = original.role2
  nearRole : ∀ name, original.role1 = some name → copy.role1 = some name
  card1 : copy.card1 = original.card1
  card2 : copy.card2 = original.card2
  flags : copy.flags = original.flags

theorem Relinked.associationCopied {copies : EntityCopies} {original copy : Association}
    {near far : EntityId}
    (relinked : Relinked { original with entity1 := near, entity2 := far, inverse := none } copy)
    (found : copies.copyOf? original.entity2 = some far) : AssociationCopied copies original copy where
  far := found.trans (congrArg (some ∘ Association.entity2) relinked.parts).symm
  role2 := (congrArg Association.role2 relinked.parts :)
  nearRole := relinked.nearRole
  card1 := (congrArg Association.card1 relinked.parts :)
  card2 := (congrArg Association.card2 relinked.parts :)
  flags := (congrArg Association.flags relinked.parts :)

/-- A target schema of some entities of a model, with the copies of associations. -/
structure TargetCopied (start : Model) (entities : List EntityId) (result : Noted Copying)
    (copied : AssociationId → Option AssociationId) : Prop where
  listed : ∀ original, original ∈ entities ↔
    ∃ copy, result.value.copies.copyOf? original = some copy
  lists : ∀ original copy, result.value.copies.copyOf? original = some copy →
    (result.value.model.entityAt copy).associations =
      (start.entityAt original).associations.filterMap copied
  leftOut : ∀ original ∈ entities, ∀ role ∈ (start.entityAt original).associations,
    (copied role = none ↔ start.far role ∉ entities)
  reported : ∀ original ∈ entities, ∀ role ∈ (start.entityAt original).associations,
    copied role = none → ∀ log : Diagnostics,
      .unresolved (start.name original) ("association " ++ (start.associationAt role).role2 ++ " to " ++
        result.value.model.name (start.far role) ++ " (no copy)") ∈ (log.absorb result.notes).entries
  only : ∀ role roleCopy, copied role = some roleCopy →
    ∃ original ∈ entities, role ∈ (start.entityAt original).associations
  new : ∀ role roleCopy, copied role = some roleCopy →
    result.value.model.HasAssociation roleCopy ∧ ¬ start.HasAssociation roleCopy
  distinct : ∀ first second roleCopy, copied first = some roleCopy → copied second = some roleCopy →
    first = second
  near : ∀ original copy, result.value.copies.copyOf? original = some copy →
    ∀ role ∈ (start.entityAt original).associations, ∀ roleCopy, copied role = some roleCopy →
      (result.value.model.associationAt roleCopy).entity1 = copy
  associations : ∀ role roleCopy, copied role = some roleCopy →
    AssociationCopied result.value.copies (start.associationAt role)
      (result.value.model.associationAt roleCopy)
  inverses : ∀ role roleCopy, copied role = some roleCopy →
    (result.value.model.associationAt roleCopy).inverse =
      (start.associationAt role).inverse.bind copied
  attributes : ∀ original copy, result.value.copies.copyOf? original = some copy →
    List.Forall₂ (AttributeCopied result.value.copies) (start.declaredAttributes original)
      (result.value.model.declaredAttributes copy)

-- The order, the copies and their links may be noted as well.
theorem mem_notes_targetSchema {model : Model} {entities : List EntityId} {note : Note}
    (noted : note ∈ (copyToTarget
      (copyInheritances (copyEach (fun model id => pure (model.targetCopy id)) model
        (model.superclassFirstOrder entities)).value.model
        (copyEach (fun model id => pure (model.targetCopy id)) model
          (model.superclassFirstOrder entities)).value.copies).value
      (copyEach (fun model id => pure (model.targetCopy id)) model
        (model.superclassFirstOrder entities)).value.copies).notes) :
    note ∈ (model.targetSchema entities).notes := by
  unfold targetSchema
  simp only [Noted.notes_bind, List.mem_append]
  exact .inr (.inr (.inr (.inl noted)))

theorem copyToTarget_of_folding {model : Model} {copies : EntityCopies}
    {folded : Noted AssociationCopying}
    (folding : (model.superclassFirstOrder copies.originals).foldlM (copyAssociationsOf copies)
      ({ model } : AssociationCopying) = folded) :
    (model.copyToTarget copies).value.1 = (copies.map Prod.snd).foldl (retargetAttributes copies)
        (folded.value.copied.foldl (linkCopiedInverse folded.value.copied) folded.value.model) ∧
      ∀ note ∈ folded.notes, note ∈ (model.copyToTarget copies).notes := by
  subst folding
  refine ⟨rfl, fun note noted => ?_⟩
  unfold copyToTarget
  simp only [Noted.notes_bind, List.mem_append]
  exact .inr (.inl noted)

section

variable {start begun : Model} {copies : EntityCopies} {entities : List EntityId}
  {state : AssociationCopying} {notes : List Note}
  (rolesCopied : RolesCopied start begun copies (start.rolesOf entities) state notes)

include rolesCopied

theorem RolesCopied.leftOut
    (copiesOf : ∀ original, original ∈ entities ↔ ∃ copy, copies.copyOf? original = some copy)
    {original : EntityId} (member : original ∈ entities) {role : AssociationId}
    (among : role ∈ (start.entityAt original).associations) :
    state.copied.lookup role = none ↔ start.far role ∉ entities := by
  rw [rolesCopied.lookup_eq_none_iff (mem_rolesOf.mpr ⟨member, among⟩), copiesOf,
    ← Option.isSome_iff_exists]
  simp

-- A copied association is listed with one original, whose copy is the near end.
theorem InversesLinked.associationCopied {done : List (AssociationId × AssociationId)}
    {linked : Model} (links : InversesLinked start state.copied state.model done linked)
    {role roleCopy : AssociationId} (known : state.copied.lookup role = some roleCopy) :
    AssociationCopied copies (start.associationAt role) (linked.associationAt roleCopy) ∧
      ∃ original ∈ entities, role ∈ (start.entityAt original).associations ∧
        copies.copyOf? original = some (linked.associationAt roleCopy).entity1 := by
  obtain ⟨original, copy, far, among, found, foundFar, same⟩ := rolesCopied.only role roleCopy known
  have relinked := links.relinked roleCopy
  rw [same] at relinked
  have near : (linked.associationAt roleCopy).entity1 = copy :=
    (congrArg Association.entity1 relinked.parts :)
  obtain ⟨member, listed⟩ := mem_rolesOf.mp among
  exact ⟨Relinked.associationCopied relinked foundFar, original, member, listed, near ▸ found⟩

omit rolesCopied in
theorem InversesLinked.finished {linked : Model}
    (links : InversesLinked start state.copied state.model state.copied linked)
    {role roleCopy : AssociationId} (known : state.copied.lookup role = some roleCopy) :
    (linked.associationAt roleCopy).inverse =
      (start.associationAt role).inverse.bind fun inverse => state.copied.lookup inverse := by
  rcases links.linked role roleCopy known with right | ⟨waiting, _⟩
  · exact right
  · exact absurd (mem_of_lookup known) waiting

omit rolesCopied in
theorem ReadyCopies.attributesCopied (ready : ReadyCopies start begun copies) {linked : Model}
    (unchanged : SameAttributes begun linked) {original copy : EntityId}
    (found : copies.copyOf? original = some copy)
    (declares : Declares begun copy (start.declaredAttributes original)) :
    List.Forall₂ (AttributeCopied copies) (start.declaredAttributes original)
      (((copies.map Prod.snd).foldl (retargetAttributes copies) linked).declaredAttributes copy) := by
  obtain ⟨declared, there⟩ := declares.sameAttributes unchanged
  have member : copy ∈ copies.map Prod.snd :=
    List.mem_map_of_mem (EntityCopies.mem_of_copyOf? found)
  rw [declaredAttributes_retargeted ready.retarget_twice member there, declared,
    List.forall₂_map_right_iff]
  exact List.forall₂_same.mpr fun declared _ => attributeCopied_retargeted copies declared

end

section

variable {start begun : Model} {copies : EntityCopies} (ready : ReadyCopies start begun copies)
  (sound : ListsApart start) (agree : start.InversesAgree) {entities : List EntityId}
  (copiesOf : ∀ original, original ∈ entities ↔ ∃ copy, copies.copyOf? original = some copy)
  (declares : ∀ original copy, copies.copyOf? original = some copy →
    Declares begun copy (start.declaredAttributes original))

include ready sound agree copiesOf declares

theorem ReadyCopies.copiesTarget {notes : List Note}
    (noted : ∀ note ∈ (begun.copyToTarget copies).notes, note ∈ notes) :
    ∃ copied, TargetCopied start entities ⟨⟨(begun.copyToTarget copies).value.1, copies⟩, notes⟩
      copied := by
  let order := begun.superclassFirstOrder copies.originals
  have given : ∀ original, original ∈ order ↔ original ∈ entities := by
    intro original
    rw [begun.mem_superclassFirstOrder, copiesOf]
    exact ⟨EntityCopies.copyOf?_of_mem_originals,
      fun ⟨copy, found⟩ => List.mem_map_of_mem (EntityCopies.mem_of_copyOf? found)⟩
  have rolesCopied := ready.rolesCopied sound (begun.nodup_superclassFirstOrder copies.originals)
    fun original member => (copiesOf original).mp ((given original).mp member)
  rw [start.rolesOf_congr given] at rolesCopied
  have names := (carriesAssociations_copyToTarget begun copies).sameLabels.name
  generalize folding : order.foldlM (copyAssociationsOf copies)
    ({ model := begun } : AssociationCopying) = folded at rolesCopied
  obtain ⟨state, reports⟩ := folded
  obtain ⟨outcome, reportsNoted⟩ := copyToTarget_of_folding folding
  let linked := state.copied.foldl (linkCopiedInverse state.copied) state.model
  let target := (copies.map Prod.snd).foldl (retargetAttributes copies) linked
  rw [outcome] at names ⊢
  -- Linking leaves entities and attributes alone, and retargeting leaves entities and associations.
  obtain ⟨entitiesLinked, attributesLinked⟩ :
      linked.entities = state.model.entities ∧ linked.attributes = state.model.attributes :=
    foldl_linkCopiedInverse_parts state.copied state.copied
  obtain ⟨entitiesTarget, associationsTarget⟩ :
      target.entities = linked.entities ∧ target.associations = linked.associations :=
    foldl_retargetAttributes_parts copies (copies.map Prod.snd)
  have associationAt : ∀ id, target.associationAt id = linked.associationAt id := fun id => by
    simp only [Model.associationAt, associationsTarget]
  have links : InversesLinked start state.copied state.model state.copied linked :=
    inversesLinked_foldl ready rolesCopied
      (fun original role among => sound.hasAssociation (mem_rolesOf.mp among).2) agree
      fun pair member => member
  refine ⟨fun role => state.copied.lookup role, copiesOf, ?lists,
    fun original member role among => rolesCopied.leftOut copiesOf member among, ?reported, ?only,
    ?new, rolesCopied.distinct, ?near, ?associations, ?inverses, ?attributes⟩
  case lists =>
    intro original copy found
    have member : original ∈ entities := (copiesOf original).mpr ⟨copy, found⟩
    have lists := rolesCopied.lists original copy found
    rw [rolesOf, if_pos member] at lists
    have same : target.entityAt copy = state.model.entityAt copy := by
      simp only [Model.entityAt, entitiesTarget, entitiesLinked]
    exact (congrArg Entity.associations same).trans lists
  case reported =>
    intro original member role among unknown log
    have handled := mem_rolesOf.mpr ⟨member, among⟩
    obtain ⟨copy, found⟩ := (copiesOf original).mp member
    have finding := rolesCopied.reported original role handled
      ((rolesCopied.lookup_eq_none_iff handled).mp unknown)
    rw [leftOutFinding_of_extends ready.apart.kept (ready.existing original copy found)
      (sound.hasAssociation among), ← names] at finding
    exact Diagnostics.mem_absorb (noted _ (reportsNoted _ finding)) log
  case only =>
    intro role roleCopy known
    obtain ⟨_, original, member, listed, _⟩ := links.associationCopied rolesCopied known
    exact ⟨original, member, listed⟩
  case new =>
    intro role roleCopy known
    obtain ⟨there, new⟩ := rolesCopied.copying.added _ (mem_of_lookup known)
    refine ⟨?_, fun old => new (ready.apart.kept.associations.lt_size old)⟩
    rw [HasAssociation, associationsTarget]
    exact Nat.lt_of_lt_of_le there links.grown.associations
  case near =>
    intro original copy found role among roleCopy known
    obtain ⟨_, owner, _, listed, foundOwner⟩ := links.associationCopied rolesCopied known
    obtain rfl := sound.eq_of_association among listed
    rw [associationAt]
    exact Option.some.inj (foundOwner.symm.trans found)
  case associations =>
    intro role roleCopy known
    rw [associationAt]
    exact (links.associationCopied rolesCopied known).1
  case inverses =>
    intro role roleCopy known
    rw [associationAt]
    exact links.finished known
  case attributes =>
    intro original copy found
    have unchanged : SameAttributes begun linked := by
      refine ⟨fun id => ?_, attributesLinked.trans rolesCopied.unchanged.attributes⟩
      rw [← rolesCopied.unchanged.lists id]
      simp only [Model.entityAt, entitiesLinked]
    exact ready.attributesCopied unchanged found (declares original copy found)

end

/-- A target schema has, for every association between given entities, one between their copies, with
the same settings and the copy of its inverse; every other association is reported. The types of the
copied attributes refer to copies where there are any. -/
theorem Reachable.targetCopied {model : Model} (reachable : model.Reachable)
    (agree : model.InversesAgree) {entities : List EntityId}
    (listed : ∀ original ∈ entities, model.HasEntity original) :
    ∃ copied, TargetCopied model entities (model.targetSchema entities) copied := by
  have sound := reachable.listsApart
  let order := model.superclassFirstOrder entities
  have made : CopiesMade model model.CopyOfAttributes order
      (copyEach (fun model id => pure (model.targetCopy id)) model order).value :=
    copiesMade_superclassFirst listed
      (keptByGrowth_copyBare.and (keptByGrowth_declares model.declaredAttributes))
      (model.copiesAs_bare_targetCopy.and (copiesAs_targetCopy fun id listed member =>
        sound.inRange .attributes id _ (List.mem_map_of_mem member)))
  let copying := (copyEach (fun model id => pure (model.targetCopy id)) model order).value
  let begun := (copying.model.copyInheritances copying.copies).value
  have links := carriesLinks_copyInheritances copying.model copying.copies
  have same := links.sameButLinks
  have ready : ReadyCopies model begun copying.copies :=
    made.readyCopies listed (made.apart.carriesLinks made.new links) same
  have copiesOf : ∀ original, original ∈ entities ↔
      ∃ copy, copying.copies.copyOf? original = some copy := by
    intro original
    rw [← model.mem_superclassFirstOrder]
    exact ⟨made.copied original, fun ⟨copy, found⟩ => (made.isCopy found).1⟩
  have declares : ∀ original copy, copying.copies.copyOf? original = some copy →
      Declares begun copy (model.declaredAttributes original) := by
    intro original copy found
    obtain ⟨_, _, _, declares⟩ := made.isCopy found
    exact declares.sameAttributes same.sameAttributes
  exact ready.copiesTarget sound agree copiesOf declares fun note => mem_notes_targetSchema

/-- Students in courses, with an association that is its own inverse, one that leads to an entity that
is not copied, and an attribute that refers to courses inside two collections. -/
def faculty : Model :=
  [Edit.insertEntity (.named "Student"), .insertEntity (.named "Course"),
    .insertEntity (.named "Person"),
    .attachAttribute ⟨0⟩
      { name := "terms", type := .setOf (.sequenceOf (.entity ⟨1⟩)), owner := ⟨0⟩ },
    .addAssociation { entity1 := ⟨0⟩, entity2 := ⟨1⟩, role2 := "courses", card2 := .many },
    .addAssociation { entity1 := ⟨1⟩, entity2 := ⟨0⟩, role2 := "students", card2 := .many },
    .linkInverse ⟨0⟩ ⟨1⟩, .addAssociation { entity1 := ⟨0⟩, entity2 := ⟨0⟩, role2 := "peer" },
    .linkInverse ⟨2⟩ ⟨2⟩,
    .addAssociation { entity1 := ⟨0⟩, entity2 := ⟨2⟩, role2 := "guardian" }].foldl Edit.apply .empty

theorem targetCopied_faculty :
    faculty.Reachable ∧ faculty.InversesAgree ∧
      (∀ original ∈ [⟨1⟩, ⟨0⟩], faculty.HasEntity original) ∧
      ∃ copied, TargetCopied faculty [⟨1⟩, ⟨0⟩] (faculty.targetSchema [⟨1⟩, ⟨0⟩]) copied := by
  have reachable : faculty.Reachable := Reachable.empty.of_leads (EditsFit.leads (by decide))
  have agree : faculty.InversesAgree := by decide
  have listed : ∀ original ∈ [⟨1⟩, ⟨0⟩], faculty.HasEntity original := by decide
  exact ⟨reachable, agree, listed, Reachable.targetCopied reachable agree listed⟩

end Model

end ClassModel
