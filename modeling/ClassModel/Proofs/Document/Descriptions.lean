import ClassModel.Proofs.Copies.Hierarchy
import ClassModel.Proofs.Document.Accepted

/-! What the entities of a loaded document have.

A document's entities are inserted by place and described by name. So the last entity of a name has
what all entities of that name declare, in document order, and the earlier ones have nothing.
-/

set_option autoImplicit false

namespace ClassModel

/-! ## What an edit adds to an entity -/

namespace Edit

def attributesFor (id : EntityId) : Edit → List Attribute
  | .attachAttribute entity added => if entity = id then [added] else []
  | _ => []

def invariantsFor (id : EntityId) : Edit → List Invariant
  | .addInvariant added => if added.owner = id then [added] else []
  | _ => []

def superclassesFor (id : EntityId) : Edit → List EntityId
  | .setSuperclass child (some parent) => if child = id then [parent] else []
  | _ => []

/-- Whether an edit adds nothing of this to an entity. -/
structure Spares (id : EntityId) (edit : Edit) : Prop where
  attributes : edit.attributesFor id = []
  invariants : edit.invariantsFor id = []
  superclass : edit.superclassesFor id = []

end Edit

namespace Model

/-- The invariants an entity lists, as they are declared. -/
def declaredInvariants (model : Model) (id : EntityId) : List Invariant :=
  (model.entityAt id).invariants.map model.invariantAt

/-- The second model has, at this entity, what the edits add to the first one. Of the superclasses the
last one stays. -/
structure Gains (id : EntityId) (edits : List Edit) (model next : Model) : Prop where
  attributes : next.declaredAttributes id =
    model.declaredAttributes id ++ edits.flatMap (Edit.attributesFor id)
  invariants : next.declaredInvariants id =
    model.declaredInvariants id ++ edits.flatMap (Edit.invariantsFor id)
  superclass : next.superclass id =
    (edits.flatMap (Edit.superclassesFor id)).getLast?.or (model.superclass id)

theorem Gains.refl (id : EntityId) (model : Model) : Gains id [] model model := by
  constructor <;> simp

theorem Gains.trans {id : EntityId} {earlier later : List Edit} {first second third : Model}
    (one : Gains id earlier first second) (two : Gains id later second third) :
    Gains id (earlier ++ later) first third where
  attributes := by rw [two.attributes, one.attributes, List.flatMap_append, List.append_assoc]
  invariants := by rw [two.invariants, one.invariants, List.flatMap_append, List.append_assoc]
  superclass := by
    rw [two.superclass, one.superclass, List.flatMap_append, List.getLast?_append, Option.or_assoc]

/-! ### One edit -/

theorem SameButLinks.declaredInvariants {before after : Model} (same : SameButLinks before after)
    (id : EntityId) : after.declaredInvariants id = before.declaredInvariants id := by
  have lists : (after.entityAt id).invariants = (before.entityAt id).invariants :=
    (congrArg Entity.invariants (same.entities id) :)
  unfold Model.declaredInvariants
  rw [lists]
  exact List.map_congr_left fun listed _ => by simp only [invariantAt, same.invariants]

theorem declaredInvariants_addInvariant (model : Model) (added : Invariant) {id : EntityId}
    (existing : model.HasEntity id)
    (there : ∀ listed ∈ (model.entityAt id).invariants, listed.index < model.invariants.size) :
    (model.addInvariant added).declaredInvariants id =
      model.declaredInvariants id ++ if added.owner = id then [added] else [] := by
  have kept : (model.entityAt id).invariants.map (model.addInvariant added).invariantAt =
      model.declaredInvariants id := List.map_congr_left fun listed member =>
    ((Keeps.refl model.invariants).push added).getD_eq (there listed member) _
  by_cases here : added.owner = id
  · subst here
    have same : (model.addInvariant added).entityAt added.owner = { model.entityAt added.owner with
        invariants := (model.entityAt added.owner).invariants ++ [model.nextInvariant] } :=
      entityAt_modifyEntity_same _ _ _ existing
    have last : (model.addInvariant added).invariantAt model.nextInvariant = added := by
      simp [invariantAt, addInvariant, modifyEntity, nextInvariant]
    rw [declaredInvariants, same, List.map_append, kept, List.map_singleton, last, if_pos rfl]
  · have other : (model.addInvariant added).entityAt id = model.entityAt id :=
      entityAt_modifyEntity_of_ne _ _ _ _ here
    rw [declaredInvariants, other, kept, if_neg here, List.append_nil]

section

variable {model next : Model} {id : EntityId}

theorem declaredAttributes_congr
    (lists : (next.entityAt id).attributes = (model.entityAt id).attributes)
    (attributes : next.attributes = model.attributes) :
    next.declaredAttributes id = model.declaredAttributes id := by
  unfold declaredAttributes
  rw [lists]
  exact List.map_congr_left fun listed _ => by simp only [attributeAt, attributes]

theorem declaredInvariants_congr
    (lists : (next.entityAt id).invariants = (model.entityAt id).invariants)
    (invariants : next.invariants = model.invariants) :
    next.declaredInvariants id = model.declaredInvariants id := by
  unfold declaredInvariants
  rw [lists]
  exact List.map_congr_left fun listed _ => by simp only [invariantAt, invariants]

-- An edit of other things, after which the entity has the same lists and the same superclass.
theorem gains_of_kept {edit : Edit}
    (attributes : (next.entityAt id).attributes = (model.entityAt id).attributes ∧
      next.attributes = model.attributes)
    (invariants : (next.entityAt id).invariants = (model.entityAt id).invariants ∧
      next.invariants = model.invariants)
    (superclass : next.superclass id = model.superclass id) (spares : edit.Spares id) :
    Gains id [edit] model next where
  attributes := by
    simpa [spares.attributes] using declaredAttributes_congr attributes.1 attributes.2
  invariants := by
    simpa [spares.invariants] using declaredInvariants_congr invariants.1 invariants.2
  superclass := by simpa [spares.superclass] using superclass

end

theorem gains_apply {before after : Model} (apart : AddsApart before after) {id : EntityId}
    (new : ¬ before.HasEntity id) (there : after.HasEntity id) {edit : Edit}
    (builds : edit.BuildsOn (before.added after)) : Gains id [edit] after (edit.apply after) := by
  cases edit with
  | insertEntity entity =>
    have same := after.entityAt_insertEntity_of_lt entity id there
    exact gains_of_kept ⟨congrArg Entity.attributes same, rfl⟩ ⟨congrArg Entity.invariants same, rfl⟩
      (congrArg Entity.superclass same) ⟨rfl, rfl, rfl⟩
  | attachAttribute entity added =>
    have attributes := after.declaredAttributes_attachAttribute entity added there
      fun listed member => ((apart.refer.entityAt new).attributes listed member).2
    have invariants : (after.attachAttribute entity added).declaredInvariants id =
        after.declaredInvariants id :=
      declaredInvariants_congr (part_modifyEntity Entity.invariants _ entity id _ fun _ => rfl) rfl
    have superclass : (after.attachAttribute entity added).superclass id = after.superclass id :=
      part_modifyEntity Entity.superclass _ entity id _ fun _ => rfl
    exact ⟨by simpa [Edit.attributesFor, Edit.apply] using attributes,
      by simpa [Edit.invariantsFor, Edit.apply] using invariants,
      by simpa [Edit.superclassesFor, Edit.apply] using superclass⟩
  | addAssociation added =>
    exact gains_of_kept ⟨part_modifyEntity Entity.attributes _ _ id _ fun _ => rfl, rfl⟩
      ⟨part_modifyEntity Entity.invariants _ _ id _ fun _ => rfl, rfl⟩
      (part_modifyEntity Entity.superclass _ _ id _ fun _ => rfl) ⟨rfl, rfl, rfl⟩
  | linkInverse first second =>
    have same : (after.linkInverse first second).entityAt id = after.entityAt id := by
      simp only [entityAt, entities_linkInverse]
    have invariants : (after.linkInverse first second).invariants = after.invariants := by
      simp only [linkInverse, modifyAssociation]
    exact gains_of_kept ⟨congrArg Entity.attributes same, after.attributes_linkInverse _ _⟩
      ⟨congrArg Entity.invariants same, invariants⟩ (congrArg Entity.superclass same) ⟨rfl, rfl, rfl⟩
  | addOperation added =>
    exact gains_of_kept ⟨part_modifyEntity Entity.attributes _ _ id _ fun _ => rfl, rfl⟩
      ⟨part_modifyEntity Entity.invariants _ _ id _ fun _ => rfl, rfl⟩
      (part_modifyEntity Entity.superclass _ _ id _ fun _ => rfl) ⟨rfl, rfl, rfl⟩
  | addInvariant added =>
    have invariants := after.declaredInvariants_addInvariant added there
      fun listed member => ((apart.refer.entityAt new).invariants listed member).2
    have attributes : (after.addInvariant added).declaredAttributes id =
        after.declaredAttributes id :=
      declaredAttributes_congr (part_modifyEntity Entity.attributes _ _ id _ fun _ => rfl) rfl
    have superclass : (after.addInvariant added).superclass id = after.superclass id :=
      part_modifyEntity Entity.superclass _ added.owner id _ fun _ => rfl
    exact ⟨by simpa [Edit.attributesFor, Edit.apply] using attributes,
      by simpa [Edit.invariantsFor, Edit.apply] using invariants,
      by simpa [Edit.superclassesFor, Edit.apply] using superclass⟩
  | setSuperclass child parent =>
    obtain ⟨childNew, named, rfl, _⟩ := builds
    have same := after.sameButLinks_setSuperclass child (some named)
    have attributes := same.declaredAttributes id
    have invariants := same.declaredInvariants id
    have superclass : (after.setSuperclass child (some named)).superclass id =
        if child = id then some named else after.superclass id := by
      rw [superclass_setSuperclass named id childNew.2]
      exact if_congr eq_comm rfl rfl
    refine ⟨by simpa [Edit.attributesFor, Edit.apply] using attributes,
      by simpa [Edit.invariantsFor, Edit.apply] using invariants, ?_⟩
    simp only [Edit.apply, superclass, List.flatMap_singleton, Edit.superclassesFor]
    split <;> rfl
  | addParent child parent =>
    have same := after.sameButLinks_addParent child parent
    have attributes := same.declaredAttributes id
    have invariants := same.declaredInvariants id
    have superclass := after.superclass_addParent child parent id
    exact ⟨by simpa [Edit.attributesFor, Edit.apply] using attributes,
      by simpa [Edit.invariantsFor, Edit.apply] using invariants,
      by simpa [Edit.superclassesFor, Edit.apply] using superclass⟩
  | removeAttribute | removeAssociation | removeGeneralization => exact builds.elim

theorem EditsBuild.gains {before after : Model} {edits : List Edit} {id : EntityId}
    (build : EditsBuild before after edits) (apart : AddsApart before after)
    (new : ¬ before.HasEntity id) (there : after.HasEntity id) :
    Gains id edits after (edits.foldl Edit.apply after) := by
  induction edits generalizing after with
  | nil => exact .refl id after
  | cons edit rest ih =>
    have still : (edit.apply after).HasEntity id :=
      Nat.lt_of_lt_of_le there (edit.noLarger_apply after).entities
    exact (gains_apply apart new there build.1).trans (ih build.2 (apart.apply build.1) still)

end Model

/-! ## What declarations say -/

namespace Document

variable {scope : Scope} {decl : EntityDecl} (id : EntityId)

theorem AttributeDecl.edits_script {entity : EntityId} {entityName : String} {decl : AttributeDecl}
    (complete : (decl.script scope entity entityName).failure = none) :
    ∃ added, decl.read scope entity entityName = .ok added ∧
      (decl.script scope entity entityName).edits = [.attachAttribute entity added] := by
  unfold script at complete ⊢
  unfold read
  cases known : scope.readType (entityName ++ "." ++ decl.name) decl.type with
  | error => simp [known, Script.withValue, Script.fail] at complete
  | ok type =>
    refine ⟨_, rfl, ?_⟩
    simp only [Script.withValue, known]
    rw [Script.edits_andThen_of_failure_none _ _ rfl, Script.edits_edit, Script.edits_say,
      List.append_nil]

theorem OperationDecl.spares_script {entity : EntityId} {entityName : String} (decl : OperationDecl) :
    ∀ edit ∈ (decl.script scope entity entityName).edits, edit.Spares id := by
  intro edit member
  obtain ⟨added, _, rfl⟩ := decl.mem_edits_script member
  exact ⟨rfl, rfl, rfl⟩

theorem EntityDecl.edits_features (complete : (decl.features scope).failure = none) :
    (∀ declared ∈ decl.attributes,
      (declared.script scope (decl.subject scope) decl.name).failure = none) ∧
    (decl.features scope).edits =
      (decl.attributes.flatMap fun declared =>
        (declared.script scope (decl.subject scope) decl.name).edits) ++
      ((decl.operations.flatMap fun operation =>
        (operation.script scope (decl.subject scope) decl.name).edits) ++
      decl.invariants.flatMap fun rule => (rule.script (decl.subject scope)).edits) := by
  obtain ⟨attributes, others⟩ := Script.failure_andThen_eq_none.mp complete
  obtain ⟨operations, invariants⟩ := Script.failure_andThen_eq_none.mp others
  refine ⟨Script.failure_ofList_eq_none.mp attributes, ?_⟩
  unfold features
  rw [Script.edits_andThen_of_failure_none _ _ attributes,
    Script.edits_andThen_of_failure_none _ _ operations,
    Script.edits_ofList _ _ (Script.failure_ofList_eq_none.mp attributes),
    Script.edits_ofList _ _ (Script.failure_ofList_eq_none.mp operations),
    Script.edits_ofList _ _ (Script.failure_ofList_eq_none.mp invariants)]

-- The declarations of another entity say nothing about this one.
theorem EntityDecl.attributesFor_features (complete : (decl.features scope).failure = none) :
    ((decl.features scope).edits.flatMap (Edit.attributesFor id)).map .ok =
      if decl.subject scope = id then
        decl.attributes.map (AttributeDecl.read scope id decl.name) else [] := by
  obtain ⟨each, edits⟩ := edits_features complete
  have operations : ((decl.operations.flatMap fun operation =>
      (operation.script scope (decl.subject scope) decl.name).edits).flatMap
        (Edit.attributesFor id)) = [] :=
    List.flatMap_eq_nil_iff.mpr <| List.forall_mem_flatMap.mpr fun operation _ edit member =>
      (operation.spares_script id edit member).attributes
  have invariants : ((decl.invariants.flatMap fun rule =>
      (rule.script (decl.subject scope)).edits).flatMap (Edit.attributesFor id)) = [] := by
    rw [List.flatMap_assoc]
    simp [InvariantDecl.script, Edit.attributesFor]
  have attributes : ∀ declared ∈ decl.attributes,
      ((declared.script scope (decl.subject scope) decl.name).edits.flatMap
        (Edit.attributesFor id)).map Except.ok =
          if decl.subject scope = id then [declared.read scope id decl.name] else [] := by
    intro declared member
    obtain ⟨added, read, edit⟩ := AttributeDecl.edits_script (each declared member)
    rw [edit]
    split
    · rename_i here
      rw [← here, read]
      simp [Edit.attributesFor]
    · rename_i other
      simp [Edit.attributesFor, other]
  rw [edits, List.flatMap_append, List.flatMap_append, operations, invariants, List.append_nil,
    List.append_nil, List.flatMap_assoc, List.map_flatMap, List.flatMap_congr attributes]
  split <;> simp [List.map_eq_flatMap]

theorem EntityDecl.invariantsFor_features (complete : (decl.features scope).failure = none) :
    (decl.features scope).edits.flatMap (Edit.invariantsFor id) =
      if decl.subject scope = id then decl.invariants.map (InvariantDecl.toInvariant id) else [] := by
  obtain ⟨_, edits⟩ := edits_features complete
  have attributes : ((decl.attributes.flatMap fun declared =>
      (declared.script scope (decl.subject scope) decl.name).edits).flatMap
        (Edit.invariantsFor id)) = [] := by
    refine List.flatMap_eq_nil_iff.mpr <| List.forall_mem_flatMap.mpr fun declared _ edit member => ?_
    obtain ⟨added, _, rfl⟩ := declared.mem_edits_script member
    rfl
  have operations : ((decl.operations.flatMap fun operation =>
      (operation.script scope (decl.subject scope) decl.name).edits).flatMap
        (Edit.invariantsFor id)) = [] :=
    List.flatMap_eq_nil_iff.mpr <| List.forall_mem_flatMap.mpr fun operation _ edit member =>
      (operation.spares_script id edit member).invariants
  rw [edits, List.flatMap_append, List.flatMap_append, attributes, operations, List.nil_append,
    List.nil_append, List.flatMap_assoc]
  split
  · rename_i here
    subst here
    simp [InvariantDecl.script, InvariantDecl.toInvariant, Edit.invariantsFor, List.map_eq_flatMap]
  · rename_i other
    simp [InvariantDecl.script, Edit.invariantsFor, other]

theorem EntityDecl.superclassesFor_features :
    (decl.features scope).edits.flatMap (Edit.superclassesFor id) = [] := by
  refine List.flatMap_eq_nil_iff.mpr fun edit member => ?_
  rcases decl.mem_edits_features member with ⟨declared, _, inside⟩ | ⟨operation, _, inside⟩ |
    ⟨rule, _, rfl⟩
  · obtain ⟨added, _, rfl⟩ := declared.mem_edits_script inside
    rfl
  · exact (operation.spares_script id edit inside).superclass
  · rfl

theorem EntityDecl.superclassesFor_generalization
    (complete : (decl.generalization scope).failure = none) :
    ((decl.generalization scope).edits.flatMap (Edit.superclassesFor id)).map some =
      if decl.subject scope = id then decl.superclass.toList.map scope.resolve? else [] := by
  have additional : ((Script.ofList (fun name => Script.withValue (scope.resolve decl.name name)
      fun parent => .edit (.addParent (decl.subject scope) parent)) decl.parents :
        Script DocumentError).edits.flatMap (Edit.superclassesFor id)) = [] :=
    List.flatMap_eq_nil_iff.mpr <| Script.forall_ofList fun name _ =>
      Script.forall_withValue fun parent _ => by simp [Edit.superclassesFor]
  unfold generalization
  rw [Script.edits_andThen_of_failure_none _ _ (Script.failure_andThen_eq_none.mp complete).1,
    List.flatMap_append, additional, List.append_nil]
  have primary := (Script.failure_andThen_eq_none.mp complete).1
  cases named : decl.superclass with
  | none => simp [Script.nothing, Script.edits]
  | some name =>
    simp only [named] at primary
    unfold Scope.resolve at primary ⊢
    cases known : scope.resolve? name with
    | none => simp [known, Script.withValue, Script.fail] at primary
    | some parent =>
      by_cases here : decl.subject scope = id <;>
        simp [Script.withValue, Edit.superclassesFor, here, known]

theorem EntityDecl.featureless_generalization :
    (decl.generalization scope).edits.flatMap (Edit.attributesFor id) = [] ∧
      (decl.generalization scope).edits.flatMap (Edit.invariantsFor id) = [] := by
  simp only [List.flatMap_eq_nil_iff]
  constructor <;> intro edit member
  · obtain ⟨parent, _, rfl | rfl⟩ := decl.mem_edits_generalization member <;> rfl
  · obtain ⟨parent, _, rfl | rfl⟩ := decl.mem_edits_generalization member <;> rfl

end Document

/-! ## Entities of one name -/

namespace Document

def names (document : Document) : List String := document.entities.map EntityDecl.name

/-- Whether a later entity has the name of the one at this place. -/
def Shadowed (document : Document) (place : Nat) : Prop :=
  ∃ later < document.entities.length, place < later ∧ document.names[later]? = document.names[place]?

instance (document : Document) (place : Nat) : Decidable (document.Shadowed place) :=
  inferInstanceAs (Decidable (∃ later < document.entities.length,
    place < later ∧ document.names[later]? = document.names[place]?))

/-- The declarations that the entity at this place is described by. -/
def describing (document : Document) (place : Nat) : List EntityDecl :=
  if document.Shadowed place then []
  else document.entities.filter fun decl => document.names[place]? = some decl.name

section

variable {document : Document} {place : Nat}

theorem getElem?_names (document : Document) (place : Nat) :
    document.names[place]? = (document.entities[place]?).map EntityDecl.name :=
  List.getElem?_map

theorem describing_of_shadowed (shadowed : document.Shadowed place) :
    document.describing place = [] := if_pos shadowed

-- The last entity of a name is described by the shadowed ones of this name and then by itself.
theorem describing_of_not_shadowed (unshadowed : ¬ document.Shadowed place) {decl : EntityDecl}
    (found : document.entities[place]? = some decl) :
    ∃ earlier, document.describing place = earlier ++ [decl] ∧
      ∀ other ∈ earlier, ∃ before, document.entities[before]? = some other ∧
        document.Shadowed before := by
  obtain ⟨inside, here⟩ := List.getElem?_eq_some_iff.mp found
  have named : document.names[place]? = some decl.name := by rw [getElem?_names, found]; rfl
  have split : document.entities =
      document.entities.take place ++ decl :: document.entities.drop (place + 1) := by
    rw [← here, List.getElem_cons_drop, List.take_append_drop]
  have after : (document.entities.drop (place + 1)).filter
      (fun other => document.names[place]? = some other.name) = [] := by
    refine List.filter_eq_nil_iff.mpr fun other member same => ?_
    obtain ⟨beyond, later⟩ := List.mem_iff_getElem?.mp member
    rw [List.getElem?_drop] at later
    have there := (List.getElem?_eq_some_iff.mp later).1
    refine unshadowed ⟨place + 1 + beyond, there, by omega, ?_⟩
    rw [getElem?_names, later]
    exact (of_decide_eq_true same).symm
  refine ⟨(document.entities.take place).filter
    (fun other => document.names[place]? = some other.name), ?_, ?_⟩
  · rw [describing, if_neg unshadowed]
    conv_lhs => rw [split]
    rw [List.filter_append, List.filter_cons_of_pos (by simpa using named), after]
  · intro other member
    obtain ⟨taken, same⟩ := List.mem_filter.mp member
    obtain ⟨before, earlier⟩ := List.mem_iff_getElem?.mp taken
    rw [List.getElem?_take] at earlier
    split at earlier
    · rename_i less
      refine ⟨before, earlier, place, inside, less, ?_⟩
      rw [of_decide_eq_true same, getElem?_names, earlier]
      rfl
    · cases earlier

theorem getElem?_created (document : Document) (model : Model) {place : Nat} {id : EntityId} :
    (document.created model)[place]? = some id ↔
      place < document.entities.length ∧ id = ⟨model.nextEntity.index + place⟩ := by
  rw [created, List.getElem?_map]
  by_cases inside : place < document.entities.length
  · simp [inside, eq_comm]
  · simp [inside]

theorem subject_eq_iff (model : Model) {decl : EntityDecl} (member : decl ∈ document.entities) :
    decl.subject (document.scopeIn model) = ⟨model.nextEntity.index + place⟩ ↔
      document.names[place]? = some decl.name ∧ ¬ document.Shadowed place := by
  have listed : decl.name ∈ (document.scopeIn model).names := List.mem_map_of_mem member
  obtain ⟨id, known⟩ := Scope.exists_resolve? listed
  have resolved := (document.scopeIn model).resolve?_eq_some_iff decl.name place
  have subject : decl.subject (document.scopeIn model) = id := by simp [EntityDecl.subject, known]
  rw [known, Option.some.injEq] at resolved
  rw [subject]
  refine resolved.trans (and_congr_right fun named => ?_)
  constructor
  · rintro last ⟨later, _, after, same⟩
    exact last later after (same.trans named)
  · intro unshadowed later after same
    refine unshadowed ⟨later, ?_, after, same.trans named.symm⟩
    have inside := (List.getElem?_eq_some_iff.mp same).1
    simpa [scopeIn] using inside

theorem flatMap_subject (model : Model) {α : Type} (part : EntityDecl → List α) :
    (document.entities.flatMap fun decl =>
      if decl.subject (document.scopeIn model) = ⟨model.nextEntity.index + place⟩
        then part decl else []) = (document.describing place).flatMap part := by
  by_cases shadowed : document.Shadowed place
  · rw [describing, if_pos shadowed, List.flatMap_nil, List.flatMap_eq_nil_iff]
    intro decl member
    rw [if_neg fun same => ((subject_eq_iff model member).mp same).2 shadowed]
  · rw [describing, if_neg shadowed, ← flatMap_ite_nil]
    refine List.flatMap_congr fun decl member => ?_
    simp [subject_eq_iff model member, shadowed]

end

/-! ## Accepted documents -/

-- Associations are nothing that their entities declare.
theorem spares_associations (document : Document) (model : Model) (id : EntityId) :
    ∀ edit ∈ document.associated model ++ document.linked model, edit.Spares id := by
  intro edit member
  rcases List.mem_append.mp member with associated | linked
  · obtain ⟨decl, _, inside⟩ := List.mem_flatMap.mp associated
    obtain ⟨added, rfl, _⟩ := decl.mem_edits_script inside
    exact ⟨rfl, rfl, rfl⟩
  · obtain ⟨decl, _, inside⟩ := List.mem_flatMap.mp linked
    rw [AssociationDecl.edits_inverseLink] at inside
    obtain ⟨link, _, rfl⟩ := List.mem_map.mp inside
    exact ⟨rfl, rfl, rfl⟩

-- What comes from the entities comes from their parents first and then from their features.
theorem flatMap_edits (document : Document) (model : Model) {α : Type} (part : Edit → List α)
    (silent : ∀ edit ∈ document.associated model ++ document.linked model, part edit = []) :
    (document.described model ++ (document.associated model ++ document.linked model)).flatMap part =
      (document.entities.flatMap fun decl =>
        (decl.generalization (document.scopeIn model)).edits.flatMap part) ++
      document.entities.flatMap fun decl =>
        (decl.features (document.scopeIn model)).edits.flatMap part := by
  rw [List.flatMap_append, List.flatMap_eq_nil_iff.mpr silent, List.append_nil, described,
    List.flatMap_append, List.flatMap_assoc, List.flatMap_assoc]

namespace IsComplete

variable {document : Document} {model : Model} (complete : document.IsComplete model)
  (place : Nat)

include complete

theorem attributesFor_edits :
    let id : EntityId := ⟨model.nextEntity.index + place⟩
    ((document.described model ++ (document.associated model ++ document.linked model)).flatMap
      (Edit.attributesFor id)).map .ok = (document.describing place).flatMap fun decl =>
        decl.attributes.map (AttributeDecl.read (document.scopeIn model) id decl.name) := by
  intro id
  rw [flatMap_edits _ _ _ fun edit member =>
      (document.spares_associations model id edit member).attributes,
    List.flatMap_eq_nil_iff.mpr fun decl _ => (decl.featureless_generalization id).1,
    List.nil_append, List.map_flatMap, ← flatMap_subject model]
  exact List.flatMap_congr fun decl member =>
    EntityDecl.attributesFor_features id (complete.features decl member)

theorem invariantsFor_edits :
    let id : EntityId := ⟨model.nextEntity.index + place⟩
    (document.described model ++ (document.associated model ++ document.linked model)).flatMap
      (Edit.invariantsFor id) = (document.describing place).flatMap fun decl =>
        decl.invariants.map (InvariantDecl.toInvariant id) := by
  intro id
  rw [flatMap_edits _ _ _ fun edit member =>
      (document.spares_associations model id edit member).invariants,
    List.flatMap_eq_nil_iff.mpr fun decl _ => (decl.featureless_generalization id).2,
    List.nil_append, ← flatMap_subject model]
  exact List.flatMap_congr fun decl member =>
    EntityDecl.invariantsFor_features id (complete.features decl member)

theorem superclassesFor_edits :
    let id : EntityId := ⟨model.nextEntity.index + place⟩
    ((document.described model ++ (document.associated model ++ document.linked model)).flatMap
      (Edit.superclassesFor id)).map some = (document.describing place).flatMap fun decl =>
        decl.superclass.toList.map (document.scopeIn model).resolve? := by
  intro id
  have features : (document.entities.flatMap fun decl =>
      (decl.features (document.scopeIn model)).edits.flatMap (Edit.superclassesFor id)) = [] :=
    List.flatMap_eq_nil_iff.mpr fun decl _ => decl.superclassesFor_features id
  rw [flatMap_edits _ _ _ fun edit member =>
      (document.spares_associations model id edit member).superclass,
    features, List.append_nil, List.map_flatMap, ← flatMap_subject model]
  exact List.flatMap_congr fun decl member =>
    EntityDecl.superclassesFor_generalization id (complete.generalization decl member)

end IsComplete

/-- Whether a declaration leaves its entity without attributes, invariants and a superclass. -/
structure EntityDecl.IsSilent (decl : EntityDecl) : Prop where
  attributes : decl.attributes = []
  invariants : decl.invariants = []
  superclass : decl.superclass = none

end Document

namespace Model

/-- The entity has the attributes, invariants and superclass that these declarations give it, in their
order, and no others. The last superclass counts. -/
structure HasDescription (model : Model) (scope : Document.Scope) (id : EntityId)
    (decls : List Document.EntityDecl) : Prop where
  attributes : (model.declaredAttributes id).map .ok = decls.flatMap fun decl =>
    decl.attributes.map (Document.AttributeDecl.read scope id decl.name)
  invariants : model.declaredInvariants id = decls.flatMap fun decl =>
    decl.invariants.map (Document.InvariantDecl.toInvariant id)
  superclass : (model.superclass id).map some =
    (decls.flatMap (·.superclass.toList)).getLast?.map scope.resolve?

section

variable {model : Model} {scope : Document.Scope} {id : EntityId}
  {decl : Document.EntityDecl} {decls : List Document.EntityDecl}

-- Declarations that are silent can be left out.
theorem hasDescription_append_of_silent (silent : ∀ decl ∈ decls, decl.IsSilent)
    (more : List Document.EntityDecl) :
    model.HasDescription scope id (decls ++ more) ↔ model.HasDescription scope id more := by
  have without : ∀ {α : Type} (part : Document.EntityDecl → List α),
      (∀ decl ∈ decls, part decl = []) → (decls ++ more).flatMap part = more.flatMap part :=
    fun part nothing => by
      rw [List.flatMap_append, List.flatMap_eq_nil_iff.mpr nothing, List.nil_append]
  have attributes := without
    (fun decl => decl.attributes.map (Document.AttributeDecl.read scope id decl.name))
    fun decl member => List.map_eq_nil_iff.mpr (silent decl member).attributes
  have invariants := without
    (fun decl => decl.invariants.map (Document.InvariantDecl.toInvariant id))
    fun decl member => List.map_eq_nil_iff.mpr (silent decl member).invariants
  have superclass := congrArg (fun named : List String => named.getLast?.map scope.resolve?)
    (without (·.superclass.toList) fun decl member => by simp [(silent decl member).superclass])
  exact ⟨fun has => ⟨has.attributes.trans attributes, has.invariants.trans invariants,
      has.superclass.trans superclass⟩,
    fun has => ⟨has.attributes.trans attributes.symm, has.invariants.trans invariants.symm,
      has.superclass.trans superclass.symm⟩⟩

theorem isSilent_of_hasDescription_nil (none : model.HasDescription scope id [])
    (own : model.HasDescription scope id [decl]) : decl.IsSilent where
  attributes := by simpa [none.attributes] using own.attributes
  invariants := by simpa [none.invariants] using own.invariants
  superclass := by
    have same := none.superclass.symm.trans own.superclass
    cases named : decl.superclass with
    | none => rfl
    | some name => simp [named] at same

end

-- A new entity stays as blank as it is inserted while others are inserted.
theorem isBare_foldl_insertEntity {start : Nat} {model : Model}
    (bare : AllFrom start model.entities Entity.IsBare) (entities : List Entity)
    (each : ∀ entity ∈ entities, entity.IsBare) :
    AllFrom start ((entities.map Edit.insertEntity).foldl Edit.apply model).entities
      Entity.IsBare := by
  induction entities generalizing model with
  | nil => exact bare
  | cons entity rest ih =>
    exact ih (bare.push (each entity List.mem_cons_self))
      fun entity member => each entity (List.mem_cons_of_mem _ member)

-- What the entities of a document are like before they are described.
theorem isBare_created (model : Model) (document : Document) (provenance : Provenance) {place : Nat}
    (there : place < document.entities.length) :
    let created := (document.entities.map fun decl =>
      Edit.insertEntity (decl.toEntity provenance)).foldl Edit.apply model
    let id : EntityId := ⟨model.nextEntity.index + place⟩
    ¬ model.HasEntity id ∧ created.HasEntity id ∧ (created.entityAt id).IsBare := by
  intro created id
  have inserted : created = ((document.entities.map (·.toEntity provenance)).map
      Edit.insertEntity).foldl Edit.apply model := by
    rw [List.map_map]
    rfl
  have new : ¬ model.HasEntity id := Nat.not_lt_of_le (Nat.le_add_right _ _)
  have existing : created.HasEntity id := by
    show model.entityCount + place < created.entityCount
    rw [inserted, Document.entityCount_foldl_insertEntity, List.length_map]
    omega
  have all : AllFrom model.entities.size created.entities Entity.IsBare := by
    rw [inserted]
    exact isBare_foldl_insertEntity (.nothing _ _) _
      (by simpa using fun decl _ => (decl.blank_toEntity provenance).1)
  refine ⟨new, existing, ?_⟩
  rw [created.entityAt_eq_getElem id existing]
  exact all id.index (Nat.le_of_not_lt new) _ (Array.getElem?_eq_getElem existing)

theorem hasDescription_of_complete {model : Model} {document : Document}
    (complete : document.IsComplete model) (provenance : Provenance) {place : Nat}
    (there : place < document.entities.length) :
    (model.load document provenance).model.HasDescription (document.scopeIn model)
      ⟨model.nextEntity.index + place⟩ (document.describing place) := by
  let inserted := document.entities.map fun decl => Edit.insertEntity (decl.toEntity provenance)
  let rest := document.described model ++ (document.associated model ++ document.linked model)
  have edits : (document.script model provenance).edits = inserted ++ rest :=
    complete.edits_script provenance
  have build := model.editsBuild_script document provenance
  rw [edits, editsBuild_append] at build
  obtain ⟨new, existing, bare⟩ := model.isBare_created document provenance there
  have gains := build.2.gains (build.1.addsApart (.refl model)) new existing
  rw [load_model, Script.result, edits, List.foldl_append]
  constructor
  case attributes =>
    rw [gains.attributes, declaredAttributes, bare.attributes]
    exact complete.attributesFor_edits place
  case invariants =>
    rw [gains.invariants, declaredInvariants, bare.invariants]
    exact complete.invariantsFor_edits place
  case superclass =>
    have named := complete.superclassesFor_edits place
    rw [← List.map_flatMap] at named
    rw [gains.superclass, superclass, bare.superclass, Option.or_none, ← List.getLast?_map,
      ← List.getLast?_map]
    exact congrArg List.getLast? named

/-- In an accepted document the last entity of a name has what all entities of the name declare, and an
earlier one has nothing. So each has what it declares itself exactly when those that share their name
with a later one declare nothing. -/
theorem load_descriptions {model : Model} {document : Document} {provenance : Provenance}
    {created : List EntityId} (accepted : (model.load document provenance).result = .ok created) :
    let loaded := (model.load document provenance).model
    let scope := document.scopeIn model
    created.length = document.entities.length ∧
    (∀ place id, created[place]? = some id →
      loaded.HasDescription scope id (document.describing place)) ∧
    ((∀ (place : Nat) decl id, document.entities[place]? = some decl →
        created[place]? = some id → loaded.HasDescription scope id [decl]) ↔
      ∀ (place : Nat) decl, document.entities[place]? = some decl → document.Shadowed place →
        decl.IsSilent) := by
  intro loaded scope
  obtain ⟨failure, rfl⟩ := (model.load_result_eq_ok_iff document provenance created).mp accepted
  have complete := Document.isComplete_of_failure_none failure
  have described : ∀ place id, (document.created model)[place]? = some id →
      loaded.HasDescription scope id (document.describing place) := by
    intro place id numbered
    obtain ⟨inside, rfl⟩ := (document.getElem?_created model).mp numbered
    exact hasDescription_of_complete complete provenance inside
  refine ⟨by simp [Document.created], described, ?_⟩
  constructor
  · intro own place decl found shadowed
    have numbered := (document.getElem?_created model).mpr
      ⟨(List.getElem?_eq_some_iff.mp found).1, rfl⟩
    have nothing := described place _ numbered
    rw [Document.describing_of_shadowed shadowed] at nothing
    exact isSilent_of_hasDescription_nil nothing (own place decl _ found numbered)
  · intro silent place decl id found numbered
    have has := described place id numbered
    by_cases shadowed : document.Shadowed place
    · rw [Document.describing_of_shadowed shadowed] at has
      have hidden : ∀ other ∈ [decl], other.IsSilent := by
        simpa using silent place decl found shadowed
      exact (hasDescription_append_of_silent hidden []).mpr has
    · obtain ⟨earlier, same, others⟩ := Document.describing_of_not_shadowed shadowed found
      rw [same] at has
      refine (hasDescription_append_of_silent (fun other member => ?_) [decl]).mp has
      obtain ⟨before, there, hidden⟩ := others other member
      exact silent before other there hidden

end Model

/-- Two persons, each with an attribute of its own. -/
def namesakes : Document where
  entities := [
    { name := "Person", attributes := [{ name := "id", type := "int" }] },
    { name := "Person", attributes := [{ name := "name", type := "String" }] }]

theorem result_load_namesakes : (Model.empty.load namesakes .shared).result = .ok [⟨0⟩, ⟨1⟩] :=
  (Model.load_result_eq_ok_iff _ _ _ _).mpr ⟨by decide +kernel, by decide⟩

/-- The second person has the attributes of both. -/
theorem load_descriptions_namesakes :
    (Model.empty.load namesakes .shared).result = .ok [⟨0⟩, ⟨1⟩] ∧
      namesakes.describing 0 = [] ∧ namesakes.describing 1 = namesakes.entities ∧
      (Model.empty.load namesakes .shared).model.HasDescription (namesakes.scopeIn .empty) ⟨1⟩
        namesakes.entities := by
  have first : namesakes.Shadowed 0 := by decide +kernel
  have last : namesakes.describing 1 = namesakes.entities := by
    have unshadowed : ¬ namesakes.Shadowed 1 := by decide +kernel
    rw [Document.describing, if_neg unshadowed]
    rfl
  obtain ⟨_, described, _⟩ := Model.load_descriptions result_load_namesakes
  exact ⟨result_load_namesakes, Document.describing_of_shadowed first, last, last ▸ described 1 ⟨1⟩ rfl⟩

/-- So the first person does not have the attribute that it declares. -/
theorem load_namesakes_apart :
    ¬ ∀ (document : Document) (provenance : Provenance) (created : List EntityId),
      (Model.empty.load document provenance).result = .ok created →
        ∀ (place : Nat) decl id, document.entities[place]? = some decl →
          created[place]? = some id → (Model.empty.load document provenance).model.HasDescription
            (document.scopeIn .empty) id [decl] := by
  intro each
  have nothing : (Model.empty.load namesakes .shared).model.declaredAttributes ⟨0⟩ = [] := by
    decide +kernel
  have own := (each namesakes .shared _ result_load_namesakes 0 _ ⟨0⟩ rfl rfl).attributes
  simp [nothing] at own

end ClassModel
