import ClassModel.Proofs.Document.TypeTexts
import ClassModel.Proofs.Lists
import ClassModel.Proofs.Model.References
import Mathlib.Data.List.Forall2

/-! Loading a document is a sequence of edits, each of which builds on the earlier ones.

A document refers to the entities its names stand for, all of which are inserted first, and to the
associations its declarations add before any two of them are linked. So the edits fit, and nothing
but the document's own elements is changed or referred to.
-/

set_option autoImplicit false

namespace ClassModel

/-! ## Scripts -/

namespace Script

variable {Error α : Type}

theorem edits_andThen_of_failure_none (first second : Script Error)
    (complete : first.failure = none) :
    (first.andThen second).edits = first.edits ++ second.edits := by
  simp [andThen, complete, edits]

theorem mem_edits_andThen {first second : Script Error} {edit : Edit}
    (member : edit ∈ (first.andThen second).edits) : edit ∈ first.edits ∨ edit ∈ second.edits := by
  cases complete : first.failure with
  | none => simpa [edits_andThen_of_failure_none _ _ complete] using member
  | some error => exact .inl (by simpa [andThen, complete] using member)

theorem mem_edits_ofList {script : α → Script Error} {items : List α} {edit : Edit}
    (member : edit ∈ (ofList script items).edits) : ∃ item ∈ items, edit ∈ (script item).edits := by
  induction items with
  | nil => simp [ofList, nothing, edits] at member
  | cons item rest ih =>
    rcases mem_edits_andThen member with here | later
    · exact ⟨item, List.mem_cons_self, here⟩
    · obtain ⟨found, among, inside⟩ := ih later
      exact ⟨found, List.mem_cons_of_mem _ among, inside⟩

theorem mem_edits_withValue {value : Except Error α} {next : α → Script Error} {edit : Edit}
    (member : edit ∈ (withValue value next).edits) :
    ∃ found, value = .ok found ∧ edit ∈ (next found).edits := by
  cases value with
  | ok found => exact ⟨found, rfl, member⟩
  | error error => simp [withValue, fail, edits] at member

section

variable {Holds : Edit → Prop}

theorem forall_andThen {first second : Script Error} (earlier : ∀ edit ∈ first.edits, Holds edit)
    (later : ∀ edit ∈ second.edits, Holds edit) :
    ∀ edit ∈ (first.andThen second).edits, Holds edit :=
  fun edit member => (mem_edits_andThen member).elim (earlier edit) (later edit)

theorem forall_ofList {script : α → Script Error} {items : List α}
    (each : ∀ item ∈ items, ∀ edit ∈ (script item).edits, Holds edit) :
    ∀ edit ∈ (ofList script items).edits, Holds edit := by
  intro edit member
  obtain ⟨item, among, inside⟩ := mem_edits_ofList member
  exact each item among edit inside

theorem forall_withValue {value : Except Error α} {next : α → Script Error}
    (each : ∀ found, value = .ok found → ∀ edit ∈ (next found).edits, Holds edit) :
    ∀ edit ∈ (withValue value next).edits, Holds edit := by
  intro edit member
  obtain ⟨found, known, inside⟩ := mem_edits_withValue member
  exact each found known edit inside

end

@[simp] theorem edits_edit (edit : Edit) : (Script.edit edit : Script Error).edits = [edit] := rfl

@[simp] theorem edits_say (messages : List Message) :
    (Script.say messages : Script Error).edits = [] := by
  simp [say, edits]

theorem failure_andThen_eq_none {first second : Script Error} :
    (first.andThen second).failure = none ↔ first.failure = none ∧ second.failure = none := by
  cases complete : first.failure <;> simp [andThen, complete]

theorem failure_ofList_eq_none {script : α → Script Error} {items : List α} :
    (ofList script items).failure = none ↔ ∀ item ∈ items, (script item).failure = none := by
  induction items with
  | nil => simp [ofList, nothing]
  | cons item rest ih => simp [ofList, failure_andThen_eq_none, ih]

theorem edits_ofList (script : α → Script Error) (items : List α)
    (complete : ∀ item ∈ items, (script item).failure = none) :
    (ofList script items).edits = items.flatMap fun item => (script item).edits := by
  induction items with
  | nil => rfl
  | cons item rest ih =>
    have first := complete item List.mem_cons_self
    have later := ih fun item member => complete item (List.mem_cons_of_mem _ member)
    simp [ofList, edits_andThen_of_failure_none _ _ first, later]

/-- The model after the edits of a script. -/
def result (script : Script Error) (model : Model) : Model := script.edits.foldl Edit.apply model

theorem result_andThen_of_failure_none (first second : Script Error) (model : Model)
    (complete : first.failure = none) :
    (first.andThen second).result model = second.result (first.result model) := by
  simp [result, edits_andThen_of_failure_none _ _ complete]

theorem noLarger_result (script : Script Error) (model : Model) :
    Model.NoLarger model (script.result model) := Model.noLarger_foldl_apply _ _

-- A second script counts only when the first one is complete.
theorem editsBuild_andThen {before after : Model} {first second : Script Error}
    (build : Model.EditsBuild before after first.edits)
    (next : first.failure = none → Model.EditsBuild before (first.result after) second.edits) :
    Model.EditsBuild before after (first.andThen second).edits := by
  cases complete : first.failure with
  | none =>
    rw [edits_andThen_of_failure_none _ _ complete]
    exact Model.editsBuild_append.mpr ⟨build, next complete⟩
  | some error =>
    have same : first.andThen second = first := by simp [andThen, complete]
    rw [same]
    exact build

end Script

/-! ## Loading -/

namespace TypeExpr

theorem leaf?_inside (kinds : List CollectionKind) (type : TypeExpr) :
    (inside kinds type).leaf? = type.leaf? := by
  induction kinds with
  | nil => rfl
  | cons kind rest ih => exact ih

-- A type that is read refers to what a name resolves to.
theorem exists_resolve_of_parse {resolve : String → Option EntityId} {text : String}
    {type : TypeExpr} (read : parse resolve text = .ok type) :
    ∀ id ∈ type.leaf?, ∃ name, resolve name = some id := by
  obtain ⟨kinds, name, _, rfl⟩ := (parse_eq_ok_iff_spells resolve text type).mp read
  rw [leaf?_inside]
  intro id referred
  cases known : resolve name with
  | none => simp [named, known, leaf?] at referred
  | some found => exact ⟨name, by simpa [named, known, leaf?] using referred⟩

end TypeExpr

namespace Document

/-- Whether an entity is one of those of the document. -/
def Scope.Has (scope : Scope) (id : EntityId) : Prop :=
  scope.first.index ≤ id.index ∧ id.index < scope.first.index + scope.names.length

-- A name stands for the last entity that has it.
theorem Scope.resolve?_eq_some_iff (scope : Scope) (name : String) (place : Nat) :
    scope.resolve? name = some ⟨scope.first.index + place⟩ ↔
      scope.names[place]? = some name ∧ ∀ later, place < later → scope.names[later]? ≠ some name := by
  have placed : scope.resolve? name = some ⟨scope.first.index + place⟩ ↔
      ((scope.names.reverse.findIdx? (· == name)).map fun fromEnd =>
        scope.names.length - 1 - fromEnd) = some place := by
    simp [resolve?, Option.map_eq_some_iff]
  rw [placed, findIdx?_reverse_eq_some_iff]
  simp only [List.getElem?_eq_some_iff, beq_iff_eq, ne_eq, not_exists]
  constructor
  · rintro ⟨there, found, last⟩
    exact ⟨⟨there, found⟩, fun later after inside => last later inside after⟩
  · rintro ⟨⟨there, found⟩, last⟩
    exact ⟨there, found, fun later inside after => last later after inside⟩

theorem Scope.has_of_resolve? {scope : Scope} {name : String} {id : EntityId}
    (found : scope.resolve? name = some id) : scope.Has id := by
  obtain ⟨fromEnd, _, rfl⟩ := Option.map_eq_some_iff.mp found
  have here := ((scope.resolve?_eq_some_iff name _).mp found).1
  have inside := (List.getElem?_eq_some_iff.mp here).1
  exact ⟨Nat.le_add_right _ _, Nat.add_lt_add_left inside _⟩

theorem Scope.exists_resolve? {scope : Scope} {name : String} (member : name ∈ scope.names) :
    ∃ id, scope.resolve? name = some id := by
  cases found : scope.resolve? name with
  | some id => exact ⟨id, rfl⟩
  | none =>
    rw [resolve?, Option.map_eq_none_iff, List.findIdx?_eq_none_iff] at found
    simpa using found name (List.mem_reverse.mpr member)

theorem Scope.resolve_eq_ok_iff {scope : Scope} {context name : String} {id : EntityId} :
    scope.resolve context name = .ok id ↔ scope.resolve? name = some id := by
  unfold resolve
  cases scope.resolve? name <;> simp

theorem Scope.has_of_resolve {scope : Scope} {context name : String} {id : EntityId}
    (found : scope.resolve context name = .ok id) : scope.Has id :=
  has_of_resolve? (resolve_eq_ok_iff.mp found)

theorem Scope.has_of_readType {scope : Scope} {context text : String} {type : TypeExpr}
    (read : scope.readType context text = .ok type) : ∀ id ∈ type.leaf?, scope.Has id := by
  have parsed : TypeExpr.parse scope.resolve? text = .ok type := by
    unfold readType at read
    cases parsed : TypeExpr.parse scope.resolve? text with
    | error => simp [parsed, Except.mapError] at read
    | ok found =>
      rw [parsed] at read
      exact congrArg Except.ok (Except.ok.inj read)
  intro id referred
  obtain ⟨name, found⟩ := TypeExpr.exists_resolve_of_parse parsed id referred
  exact has_of_resolve? found

-- A declaration of a document describes an entity that the document has.
theorem EntityDecl.has_subject {scope : Scope} (decl : EntityDecl)
    (named : 0 < scope.names.length) : scope.Has (decl.subject scope) := by
  unfold subject
  cases found : scope.resolve? decl.name with
  | none =>
    rw [Option.getD_none]
    exact ⟨Nat.le_refl _, Nat.lt_add_of_pos_right named⟩
  | some id => exact Scope.has_of_resolve? found

-- Stereotypes leave the lists and the links of a new entity empty.
theorem EntityDecl.blank_toEntity (decl : EntityDecl) (provenance : Provenance) :
    (decl.toEntity provenance).IsBare ∧ (decl.toEntity provenance).linkedAssociation = none ∧
      (decl.toEntity provenance).copyOf = none := by
  let Blank (entity : Entity) : Prop :=
    entity.IsBare ∧ entity.linkedAssociation = none ∧ entity.copyOf = none
  have apply : ∀ (entity : Entity) stereotype, Blank entity → Blank (entity.apply stereotype) := by
    rintro entity stereotype ⟨⟨_, _, _, _, _, _, _⟩, unlinked, original⟩
    cases stereotype with
    | tag word =>
      simp only [Entity.apply]
      split <;> exact ⟨by constructor <;> assumption, unlinked, original⟩
    | _ => exact ⟨by constructor <;> assumption, unlinked, original⟩
  have start : Blank { Entity.named decl.name with provenance } :=
    ⟨by constructor <;> rfl, rfl, rfl⟩
  have marked : Blank (decl.stereotypes.foldl Entity.applyStereotype
      { Entity.named decl.name with provenance }) :=
    List.foldlRecOn decl.stereotypes _ start fun entity blank text _ => apply entity _ blank
  obtain ⟨⟨_, _, _, _, _, _, _⟩, unlinked, original⟩ := marked
  exact ⟨by constructor <;> assumption, unlinked, original⟩

-- The first part of a document's script: its entities.
theorem edits_creation (provenance : Provenance) (decls : List EntityDecl) :
    (Script.ofList (EntityDecl.creation provenance) decls).edits =
      decls.map fun decl => .insertEntity (decl.toEntity provenance) := by
  rw [Script.edits_ofList _ _ fun _ _ => rfl]
  induction decls with
  | nil => rfl
  | cons decl rest ih =>
    have first : (EntityDecl.creation provenance decl).edits =
        [.insertEntity (decl.toEntity provenance)] := by
      rw [EntityDecl.creation, Script.edits_andThen_of_failure_none _ _ rfl]
      simp
    rw [List.flatMap_cons, ih, first]
    rfl

theorem entityCount_foldl_insertEntity (model : Model) (entities : List Entity) :
    ((entities.map Edit.insertEntity).foldl Edit.apply model).entityCount =
      model.entityCount + entities.length := by
  induction entities generalizing model with
  | nil => rfl
  | cons entity rest ih =>
    have inserted : (Edit.apply model (.insertEntity entity)).entityCount = model.entityCount + 1 :=
      model.entityCount_insertEntity entity
    simp only [List.map_cons, List.foldl_cons, ih, inserted, List.length_cons]
    omega

/-! ### The edits of a document -/

/-- The attribute that a declaration reads as, for an entity. -/
def AttributeDecl.read (scope : Scope) (entity : EntityId) (entityName : String)
    (decl : AttributeDecl) : Except DocumentError Attribute :=
  (scope.readType (entityName ++ "." ++ decl.name) decl.type).map fun type =>
    { name := decl.name, type, flags := flagsOf AttributeFlags.set? {} decl.flags, owner := entity }

def InvariantDecl.toInvariant (entity : EntityId) (decl : InvariantDecl) : Invariant where
  antecedent := decl.antecedent
  consequent := decl.consequent
  owner := entity
  isLocal := decl.isLocal

section

variable {scope : Scope} {entity : EntityId} {entityName : String} {edit : Edit}

theorem AttributeDecl.mem_edits_script {decl : AttributeDecl}
    (member : edit ∈ (decl.script scope entity entityName).edits) :
    ∃ added, decl.read scope entity entityName = .ok added ∧
      edit = .attachAttribute entity added := by
  obtain ⟨type, known, inside⟩ := Script.mem_edits_withValue member
  rcases Script.mem_edits_andThen inside with attached | said
  · rw [Script.edits_edit, List.mem_singleton] at attached
    exact ⟨_, by rw [read, known]; rfl, attached⟩
  · simp at said

theorem OperationDecl.mem_edits_script {decl : OperationDecl}
    (member : edit ∈ (decl.script scope entity entityName).edits) :
    ∃ added, decl.toOperation scope entity (entityName ++ "." ++ decl.name) = .ok added ∧
      edit = .addOperation added := by
  obtain ⟨added, read, inside⟩ := Script.mem_edits_withValue member
  rcases Script.mem_edits_andThen inside with said | listed
  · simp at said
  · rw [Script.edits_edit, List.mem_singleton] at listed
    exact ⟨added, read, listed⟩

theorem EntityDecl.mem_edits_generalization {decl : EntityDecl}
    (member : edit ∈ (decl.generalization scope).edits) :
    ∃ parent, scope.Has parent ∧ (edit = .setSuperclass (decl.subject scope) (some parent) ∨
      edit = .addParent (decl.subject scope) parent) := by
  rcases Script.mem_edits_andThen member with primary | additional
  · cases named : decl.superclass with
    | none => simp [named, Script.nothing, Script.edits] at primary
    | some name =>
      rw [named] at primary
      obtain ⟨parent, resolved, inside⟩ := Script.mem_edits_withValue primary
      rw [Script.edits_edit, List.mem_singleton] at inside
      exact ⟨parent, Scope.has_of_resolve resolved, .inl inside⟩
  · obtain ⟨name, _, added⟩ := Script.mem_edits_ofList additional
    obtain ⟨parent, resolved, inside⟩ := Script.mem_edits_withValue added
    rw [Script.edits_edit, List.mem_singleton] at inside
    exact ⟨parent, Scope.has_of_resolve resolved, .inr inside⟩

theorem EntityDecl.mem_edits_features {decl : EntityDecl}
    (member : edit ∈ (decl.features scope).edits) :
    (∃ declared ∈ decl.attributes, edit ∈
      (declared.script scope (decl.subject scope) decl.name).edits) ∨
    (∃ operation ∈ decl.operations, edit ∈
      (operation.script scope (decl.subject scope) decl.name).edits) ∨
    ∃ rule ∈ decl.invariants, edit = .addInvariant (rule.toInvariant (decl.subject scope)) := by
  rcases Script.mem_edits_andThen member with attributes | others
  · exact .inl (Script.mem_edits_ofList attributes)
  rcases Script.mem_edits_andThen others with operations | invariants
  · exact .inr (.inl (Script.mem_edits_ofList operations))
  · obtain ⟨rule, among, inside⟩ := Script.mem_edits_ofList invariants
    rw [InvariantDecl.script, Script.edits_edit, List.mem_singleton] at inside
    exact .inr (.inr ⟨rule, among, inside⟩)

end

/-- An association between the entities that a declaration names, without an inverse. -/
structure AssociationDecl.Describes (scope : Scope) (decl : AssociationDecl)
    (added : Association) : Prop where
  near : scope.resolve decl.context decl.entity1 = .ok added.entity1
  far : scope.resolve decl.context decl.entity2 = .ok added.entity2
  alone : added.inverse = none

-- A declared association is one edit, which adds it between resolved entities.
theorem AssociationDecl.mem_edits_script {scope : Scope} {decl : AssociationDecl} {edit : Edit}
    (member : edit ∈ (decl.script scope).edits) :
    ∃ added : Association, edit = .addAssociation added ∧ decl.Describes scope added := by
  obtain ⟨entity1, near, inside⟩ := Script.mem_edits_withValue member
  obtain ⟨entity2, far, inside⟩ := Script.mem_edits_withValue inside
  rcases Script.mem_edits_andThen inside with said | inside
  · simp at said
  obtain ⟨card1, _, inside⟩ := Script.mem_edits_withValue inside
  obtain ⟨card2, _, inside⟩ := Script.mem_edits_withValue inside
  rw [Script.edits_edit, List.mem_singleton] at inside
  exact ⟨_, inside, near, far, rfl⟩

/-! ### What the edits of a document refer to -/

section

variable {scope : Scope} {elements : Elements}
  (known : ∀ {id}, scope.Has id → elements.entities id)

include known

theorem EntityDecl.buildsOn_generalization (named : 0 < scope.names.length) (decl : EntityDecl) :
    ∀ edit ∈ (decl.generalization scope).edits, edit.BuildsOn elements := by
  intro edit member
  have child := known (decl.has_subject named)
  obtain ⟨parent, there, rfl | rfl⟩ := decl.mem_edits_generalization member
  · exact ⟨child, parent, rfl, known there⟩
  · exact ⟨child, known there⟩

theorem AttributeDecl.refersTo_read {entity : EntityId} {entityName : String}
    {decl : AttributeDecl} {added : Attribute} (owner : elements.entities entity)
    (read : decl.read scope entity entityName = .ok added) : added.RefersTo elements := by
  unfold AttributeDecl.read at read
  cases typeRead : scope.readType (entityName ++ "." ++ decl.name) decl.type with
  | error => simp [typeRead, Except.map] at read
  | ok type =>
    rw [typeRead] at read
    cases read
    exact ⟨owner, fun id referred => known (Scope.has_of_readType typeRead id referred), rfl⟩

theorem OperationDecl.refersTo_toOperation {entity : EntityId} {context : String}
    {decl : OperationDecl} {operation : Operation} (owner : elements.entities entity)
    (read : decl.toOperation scope entity context = .ok operation) :
    operation.RefersTo elements := by
  unfold toOperation at read
  simp only [bind, Except.bind, pure, Except.pure] at read
  split at read
  · cases read
  rename_i params paramsRead
  split at read
  · cases read
  rename_i result resultRead
  cases read
  refine ⟨owner, fun param listed id referred => ?_, fun type given id referred => ?_⟩
  · obtain ⟨written, _, paramRead⟩ := mem_of_mapM_eq_ok paramsRead param listed
    cases typeRead : scope.readType context written.type with
    | error => simp [typeRead] at paramRead
    | ok type =>
      simp only [typeRead, Except.ok.injEq] at paramRead
      subst paramRead
      exact known (Scope.has_of_readType typeRead id referred)
  · cases written : decl.result with
    | none =>
      rw [written] at resultRead
      cases resultRead
      cases given
    | some text =>
      cases typeRead : scope.readType context text with
      | error => simp [written, typeRead] at resultRead
      | ok read =>
        simp only [written, typeRead, Option.mapM_some] at resultRead
        cases resultRead
        cases given
        exact known (Scope.has_of_readType typeRead id referred)

theorem EntityDecl.buildsOn_features (named : 0 < scope.names.length) (decl : EntityDecl) :
    ∀ edit ∈ (decl.features scope).edits, edit.BuildsOn elements := by
  intro edit member
  have entity := known (decl.has_subject named)
  rcases decl.mem_edits_features member with ⟨declared, _, inside⟩ | ⟨operation, _, inside⟩ |
    ⟨rule, _, rfl⟩
  · obtain ⟨added, read, rfl⟩ := declared.mem_edits_script inside
    exact ⟨entity, AttributeDecl.refersTo_read known entity read⟩
  · obtain ⟨added, read, rfl⟩ := operation.mem_edits_script inside
    exact OperationDecl.refersTo_toOperation known entity read
  · exact entity

theorem AssociationDecl.buildsOn_script (decl : AssociationDecl) :
    ∀ edit ∈ (decl.script scope).edits, edit.BuildsOn elements := by
  intro edit member
  obtain ⟨added, rfl, described⟩ := decl.mem_edits_script member
  refine ⟨known (Scope.has_of_resolve described.near), known (Scope.has_of_resolve described.far), ?_⟩
  simp [described.alone]

end

-- A declaration that is accepted adds an association.
theorem AssociationDecl.length_edits_script {scope : Scope} {decl : AssociationDecl}
    (complete : (decl.script scope).failure = none) : (decl.script scope).edits.length = 1 := by
  unfold script at complete ⊢
  cases first : scope.resolve decl.context decl.entity1 with
  | error => simp [first, Script.withValue, Script.fail] at complete
  | ok entity1 =>
  cases second : scope.resolve decl.context decl.entity2 with
  | error => simp [first, second, Script.withValue, Script.fail] at complete
  | ok entity2 =>
  simp only [first, second, Script.withValue] at complete ⊢
  rw [Script.edits_andThen_of_failure_none _ _ rfl, Script.edits_say, List.nil_append]
  have rest := (Script.failure_andThen_eq_none.mp complete).2
  cases near : readMultiplicity decl.context decl.card1 with
  | error => simp [near, Script.fail] at rest
  | ok card1 =>
  cases distant : readMultiplicity decl.context decl.card2 with
  | error => simp [near, distant, Script.fail] at rest
  | ok card2 => simp

-- The associations of a document are numbered from the first one on.
theorem AssociationDecl.exists_of_withRole? {scope : Scope} {first : AssociationId}
    {decls : List AssociationDecl} {entity : EntityId} {role : String} {id : AssociationId}
    (found : withRole? scope first decls entity role = some id) :
    ∃ place decl, id = ⟨first.index + place⟩ ∧ decls[place]? = some decl ∧
      scope.resolve? decl.entity1 = some entity ∧ decl.role2 = role := by
  obtain ⟨fromEnd, last, rfl⟩ := Option.map_eq_some_iff.mp found
  obtain ⟨there, leads, _⟩ := (findIdx?_reverse_eq_some_iff decls _ _).mp
    (Option.map_eq_some_iff.mpr ⟨fromEnd, last, rfl⟩)
  exact ⟨_, _, rfl, List.getElem?_eq_getElem there, by simpa using leads⟩

theorem AssociationDecl.index_of_withRole? {scope : Scope} {first : AssociationId}
    {decls : List AssociationDecl} {entity : EntityId} {role : String} {id : AssociationId}
    (found : withRole? scope first decls entity role = some id) :
    first.index ≤ id.index ∧ id.index < first.index + decls.length := by
  obtain ⟨place, decl, rfl, there, _⟩ := exists_of_withRole? found
  have inside := (List.getElem?_eq_some_iff.mp there).1
  exact ⟨Nat.le_add_right _ _, Nat.add_lt_add_left inside _⟩

/-- The association that a declaration stands for by its role and the one that its inverse names. -/
def AssociationDecl.directions? (scope : Scope) (first : AssociationId)
    (decls : List AssociationDecl) (decl : AssociationDecl) :
    Option (AssociationId × AssociationId) := do
  let role ← decl.inverse
  let entity1 ← scope.resolve? decl.entity1
  let entity2 ← scope.resolve? decl.entity2
  let forward ← withRole? scope first decls entity1 decl.role2
  let backward ← withRole? scope first decls entity2 role
  return (forward, backward)

section

variable {scope : Scope} {first : AssociationId} {decls : List AssociationDecl}
  {decl : AssociationDecl}

theorem AssociationDecl.directions?_eq_some_iff {forward backward : AssociationId} :
    directions? scope first decls decl = some (forward, backward) ↔
      ∃ role entity1 entity2, decl.inverse = some role ∧
        scope.resolve? decl.entity1 = some entity1 ∧ scope.resolve? decl.entity2 = some entity2 ∧
        withRole? scope first decls entity1 decl.role2 = some forward ∧
        withRole? scope first decls entity2 role = some backward := by
  simp [directions?, Option.bind_eq_some_iff]

-- A declared inverse is one edit, which links the two directions.
theorem AssociationDecl.edits_inverseLink :
    (inverseLink scope first decls decl).edits =
      (directions? scope first decls decl).toList.map fun link => .linkInverse link.1 link.2 := by
  unfold inverseLink directions? Scope.resolve
  cases decl.inverse with
  | none => rfl
  | some role =>
  cases scope.resolve? decl.entity1 with
  | none => rfl
  | some entity1 =>
  cases scope.resolve? decl.entity2 with
  | none => rfl
  | some entity2 =>
  cases forward : withRole? scope first decls entity1 decl.role2 <;>
    cases backward : withRole? scope first decls entity2 role <;>
      simp [Script.withValue, Script.fail, Script.edits, Script.edit, forward, backward]

theorem AssociationDecl.buildsOn_inverseLink {elements : Elements}
    (known : ∀ {id : AssociationId}, first.index ≤ id.index ∧ id.index < first.index + decls.length →
      elements.associations id) :
    ∀ edit ∈ (inverseLink scope first decls decl).edits, edit.BuildsOn elements := by
  rw [edits_inverseLink]
  rintro edit member
  obtain ⟨⟨forward, backward⟩, linked, rfl⟩ := List.mem_map.mp member
  obtain ⟨_, _, _, _, _, _, foundForward, foundBackward⟩ :=
    directions?_eq_some_iff.mp (Option.mem_toList.mp linked)
  exact ⟨known (index_of_withRole? foundForward), known (index_of_withRole? foundBackward)⟩

end

-- The declared associations come last, in their order.
theorem associations_foldl_associated (scope : Scope) {decls : List AssociationDecl}
    (complete : ∀ decl ∈ decls, (decl.script scope).failure = none) (model : Model) :
    ∃ added, List.Forall₂ (AssociationDecl.Describes scope) decls added ∧
      ((decls.flatMap fun decl => (decl.script scope).edits).foldl Edit.apply
        model).associations.toList = model.associations.toList ++ added := by
  induction decls generalizing model with
  | nil => exact ⟨[], .nil, by simp⟩
  | cons decl rest ih =>
    obtain ⟨edit, single⟩ := List.length_eq_one_iff.mp
      (AssociationDecl.length_edits_script (complete decl List.mem_cons_self))
    obtain ⟨added, rfl, described⟩ := decl.mem_edits_script (single ▸ List.mem_singleton_self edit)
    obtain ⟨more, later, associations⟩ := ih
      (fun decl member => complete decl (List.mem_cons_of_mem _ member)) (model.addAssociation added)
    refine ⟨added :: more, .cons described later, ?_⟩
    rw [List.flatMap_cons, single, List.foldl_append]
    refine associations.trans ?_
    simp [Model.addAssociation, Model.modifyEntity]

-- Inverses are resolved by position among these associations, so their number has to be known.
theorem associations_size_of_complete (scope : Scope) (decls : List AssociationDecl) (model : Model)
    (complete : (Script.ofList (AssociationDecl.script scope) decls).failure = none) :
    ((Script.ofList (AssociationDecl.script scope) decls).result model).associations.size =
      model.associations.size + decls.length := by
  have each := Script.failure_ofList_eq_none.mp complete
  obtain ⟨added, described, associations⟩ := associations_foldl_associated scope each model
  rw [Script.result, Script.edits_ofList _ _ each, ← Array.length_toList, associations,
    List.length_append, described.length_eq, Array.length_toList]

theorem numbered_scopeIn (document : Document) (model : Model) (provenance : Provenance) :
    (document.scopeIn model).first.index + (document.scopeIn model).names.length =
      ((Script.ofList (EntityDecl.creation provenance) document.entities).result
        model).entityCount := by
  have edits : (Script.ofList (EntityDecl.creation provenance) document.entities).edits =
      (document.entities.map (EntityDecl.toEntity · provenance)).map Edit.insertEntity := by
    rw [edits_creation, List.map_map]
    rfl
  rw [Script.result, edits, entityCount_foldl_insertEntity]
  simp [scopeIn, Model.nextEntity, Model.entityCount]

end Document

namespace Model

theorem load_model (model : Model) (document : Document) (provenance : Provenance) :
    (model.load document provenance).model = (document.script model provenance).result model :=
  value_perform _ _

/-- The edits of a document build on what the document has added, wherever an error ends them. -/
theorem editsBuild_script (model : Model) (document : Document) (provenance : Provenance) :
    EditsBuild model model (document.script model provenance).edits := by
  let scope := document.scopeIn model
  let creation := Script.ofList (Document.EntityDecl.creation provenance) document.entities
  let parents := Script.ofList (Document.EntityDecl.generalization scope) document.entities
  let features := Script.ofList (Document.EntityDecl.features scope) document.entities
  let ends := Script.ofList (Document.AssociationDecl.script scope) document.associations
  let created := creation.result model
  let related := parents.result created
  let described := features.result related
  have numbered : scope.first.index + scope.names.length = created.entityCount :=
    document.numbered_scopeIn model provenance
  have known : ∀ {id}, scope.Has id → (model.added created).entities id :=
    fun among => ⟨among.1, Nat.lt_of_lt_of_eq among.2 numbered⟩
  have named : ∀ decl ∈ document.entities, 0 < scope.names.length := by
    intro decl member
    simpa [scope, Document.scopeIn] using List.length_pos_of_mem member
  have amongRelated : (model.added created).Among (model.added related) := added_among_foldl _
  have amongDescribed : (model.added created).Among (model.added described) :=
    amongRelated.trans (added_among_foldl _)
  -- After the entities, edits refer to what is there by then, whatever else has been added since.
  refine Script.editsBuild_andThen (editsBuild_of_forall (.refl _) ?_) fun _ => ?_
  · intro edit member
    rw [Document.edits_creation] at member
    obtain ⟨decl, _, rfl⟩ := List.mem_map.mp member
    obtain ⟨bare, unlinked, original⟩ := decl.blank_toEntity provenance
    exact ⟨bare, bare.refersTo unlinked original _⟩
  refine Script.editsBuild_andThen (editsBuild_of_forall (.refl _) <|
    Script.forall_ofList fun decl member =>
      decl.buildsOn_generalization known (named decl member)) fun _ => ?_
  refine Script.editsBuild_andThen (editsBuild_of_forall amongRelated <|
    Script.forall_ofList fun decl member =>
      decl.buildsOn_features known (named decl member)) fun _ => ?_
  refine Script.editsBuild_andThen (editsBuild_of_forall amongDescribed <|
    Script.forall_ofList fun decl _ => decl.buildsOn_script known) fun complete => ?_
  have grown : NoLarger model described :=
    (((creation.noLarger_result model).trans (parents.noLarger_result created)).trans
      (features.noLarger_result related))
  have added : model.nextAssociation.index + document.associations.length ≤
      (ends.result described).associations.size := by
    rw [Document.associations_size_of_complete scope _ _ complete]
    exact Nat.add_le_add_right grown.associations _
  have knownEnds : ∀ {id : AssociationId}, model.nextAssociation.index ≤ id.index ∧
      id.index < model.nextAssociation.index + document.associations.length →
      (model.added (ends.result described)).associations id :=
    fun among => ⟨among.1, Nat.lt_of_lt_of_le among.2 added⟩
  refine Script.editsBuild_andThen (editsBuild_of_forall (.refl _) <|
    Script.forall_ofList fun decl _ => decl.buildsOn_inverseLink knownEnds) fun _ => ?_
  rw [Script.edits_say]
  trivial

theorem editsFit_script (model : Model) (document : Document) (provenance : Provenance) :
    EditsFit model (document.script model provenance).edits :=
  (model.editsBuild_script document provenance).editsFit

theorem leads_load (model : Model) (document : Document) (provenance : Provenance) :
    Leads model (model.load document provenance).model := by
  rw [load_model]
  exact (model.editsFit_script document provenance).leads

theorem addsApart_load (model : Model) (document : Document) (provenance : Provenance) :
    AddsApart model (model.load document provenance).model := by
  rw [load_model]
  exact (model.editsBuild_script document provenance).addsApart (.refl model)

/-- However far loading gets, all that was there is unchanged, every name that was found leads to the
same entity, and what is new refers to new elements only. -/
theorem load_isolated (model : Model) (document : Document) (provenance : Provenance) :
    let loaded := (model.load document provenance).model
    model.Extends loaded ∧
      (∀ name id, model.entityNamed? name = some id → loaded.entityNamed? name = some id) ∧
      AdditionsReferTo (model.added loaded) model loaded := by
  intro loaded
  have apart := model.addsApart_load document provenance
  exact ⟨apart.kept, apart.kept.named, apart.refer⟩

end Model

end ClassModel
