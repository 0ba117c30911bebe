import ClassModel.Proofs.Copies.Associations
import ClassModel.Proofs.Document.Accepted

/-! The inverses of the associations of a loaded document.

An inverse is found by the name of its role and by the entity it starts from. Where it leads is not
looked at, and neither is which of the associations of that name was meant: the last one is taken.
-/

set_option autoImplicit false

namespace ClassModel

namespace Model

/-- Whether the second association starts where the first one leads and leads where that one starts. -/
def RunsBack (model : Model) (first second : AssociationId) : Prop :=
  (model.associationAt second).entity1 = model.far first ∧
    model.far second = (model.associationAt first).entity1

instance (model : Model) (first second : AssociationId) : Decidable (model.RunsBack first second) :=
  inferInstanceAs (Decidable (_ ∧ _))

theorem RunsBack.symm {model : Model} {first second : AssociationId}
    (back : model.RunsBack first second) : model.RunsBack second first := ⟨back.2.symm, back.1.symm⟩

end Model

/-! ## Links one after another -/

/-- The partner that a link gives to an association, if it is one of the two. -/
def partnerIn (asked : AssociationId) (link : AssociationId × AssociationId) :
    Option AssociationId :=
  if asked = link.2 then some link.1 else if asked = link.1 then some link.2 else none

theorem partnerIn_eq_some_iff {asked partner : AssociationId}
    {link : AssociationId × AssociationId} (given : partnerIn asked link = some partner) :
    link = (partner, asked) ∨ link = (asked, partner) := by
  obtain ⟨first, second⟩ := link
  unfold partnerIn at given
  split at given
  case isTrue here =>
    cases given
    exact .inl (congrArg (Prod.mk first) here.symm)
  case isFalse =>
    split at given
    case isTrue here =>
      cases given
      exact .inr (congrArg (Prod.mk · second) here.symm)
    case isFalse => cases given

namespace Model

-- An association keeps the partner of the last link it is in.
theorem inverse_foldl_linkInverse {model : Model} {links : List (AssociationId × AssociationId)}
    (there : ∀ link ∈ links, model.HasAssociation link.1 ∧ model.HasAssociation link.2)
    (asked : AssociationId) :
    ((links.foldl (fun model link => model.linkInverse link.1 link.2) model).associationAt
      asked).inverse =
      (links.filterMap (partnerIn asked)).getLast?.or (model.associationAt asked).inverse := by
  induction links generalizing model with
  | nil => rfl
  | cons link rest ih =>
    obtain ⟨firstThere, secondThere⟩ := there link List.mem_cons_self
    have grown := (model.noLarger_linkInverse link.1 link.2).associations
    have still : ∀ later ∈ rest, (model.linkInverse link.1 link.2).HasAssociation later.1 ∧
        (model.linkInverse link.1 link.2).HasAssociation later.2 := by
      intro later member
      obtain ⟨first, second⟩ := there later (List.mem_cons_of_mem _ member)
      exact ⟨Nat.lt_of_lt_of_le first grown, Nat.lt_of_lt_of_le second grown⟩
    have one : ((model.linkInverse link.1 link.2).associationAt asked).inverse =
        (partnerIn asked link).or (model.associationAt asked).inverse := by
      rw [inverse_linkInverse firstThere secondThere, partnerIn]
      split
      · rfl
      · split <;> rfl
    rw [List.foldl_cons, ih still, one, ← Option.or_assoc, List.filterMap_cons]
    cases partnerIn asked link with
    | none => rw [Option.or_none]
    | some partner =>
      have last : (partner :: rest.filterMap (partnerIn asked)).getLast? =
          (rest.filterMap (partnerIn asked)).getLast?.or (some partner) :=
        by rw [← List.singleton_append, List.getLast?_append]; rfl
      rw [last]

theorem relinked_foldl_linkInverse (model : Model) (links : List (AssociationId × AssociationId))
    (asked : AssociationId) : Relinked (model.associationAt asked)
      ((links.foldl (fun model link => model.linkInverse link.1 link.2) model).associationAt
        asked) := by
  induction links generalizing model with
  | nil => exact .refl _
  | cons link rest ih => exact (model.relinked_linkInverse link.1 link.2 asked).trans (ih _)

end Model

namespace Document

/-! ## The associations of a document -/

theorem associations_foldl_of_kept {edits : List Edit} (model : Model)
    (kept : ∀ edit ∈ edits, ∀ model : Model, (edit.apply model).associations = model.associations) :
    (edits.foldl Edit.apply model).associations = model.associations := by
  induction edits generalizing model with
  | nil => rfl
  | cons edit rest ih =>
    rw [List.foldl_cons, ih _ fun edit member => kept edit (List.mem_cons_of_mem _ member)]
    exact kept edit List.mem_cons_self model

-- Nothing that describes an entity is an association.
theorem EntityDecl.associations_apply_generalization {scope : Scope} {decl : EntityDecl}
    {edit : Edit} (member : edit ∈ (decl.generalization scope).edits) (model : Model) :
    (edit.apply model).associations = model.associations := by
  obtain ⟨parent, _, rfl | rfl⟩ := decl.mem_edits_generalization member
  · exact (model.sameButLinks_setSuperclass _ _).associations
  · exact (model.sameButLinks_addParent _ _).associations

theorem EntityDecl.associations_apply_features {scope : Scope} {decl : EntityDecl}
    {edit : Edit} (member : edit ∈ (decl.features scope).edits) (model : Model) :
    (edit.apply model).associations = model.associations := by
  rcases decl.mem_edits_features member with ⟨declared, _, inside⟩ | ⟨operation, _, inside⟩ |
    ⟨rule, _, rfl⟩
  · obtain ⟨added, _, rfl⟩ := declared.mem_edits_script inside
    rfl
  · obtain ⟨added, _, rfl⟩ := operation.mem_edits_script inside
    rfl
  · rfl

/-- The links between associations that a document asks for, in order. -/
def links (document : Document) (model : Model) : List (AssociationId × AssociationId) :=
  document.associations.filterMap (AssociationDecl.directions? (document.scopeIn model)
    model.nextAssociation document.associations)

theorem linked_eq_map_links (document : Document) (model : Model) :
    document.linked model =
      (document.links model).map fun link => .linkInverse link.1 link.2 := by
  simp only [linked, AssociationDecl.edits_inverseLink]
  rw [links, ← List.map_flatMap, List.filterMap_eq_flatMap_toList]

/-- The model with the entities and associations of a document, before any of them are linked. -/
def joined (document : Document) (model : Model) (provenance : Provenance) : Model :=
  let inserted := document.entities.map fun decl => Edit.insertEntity (decl.toEntity provenance)
  (document.associated model).foldl Edit.apply
    ((inserted ++ document.described model).foldl Edit.apply model)

-- The links are the last edits of a document.
theorem IsComplete.load_eq_foldl_links {document : Document} {model : Model}
    (complete : document.IsComplete model) (provenance : Provenance) :
    (model.load document provenance).model = (document.links model).foldl
      (fun model link => model.linkInverse link.1 link.2) (document.joined model provenance) := by
  rw [Model.load_model, Script.result, complete.edits_script, ← List.append_assoc,
    List.foldl_append, List.foldl_append, linked_eq_map_links, List.foldl_map]
  rfl

theorem IsComplete.associations_joined {document : Document} {model : Model}
    (complete : document.IsComplete model) (provenance : Provenance) :
    ∃ added, List.Forall₂ (AssociationDecl.Describes (document.scopeIn model))
        document.associations added ∧
      (document.joined model provenance).associations.toList =
        model.associations.toList ++ added := by
  let inserted := document.entities.map fun decl => Edit.insertEntity (decl.toEntity provenance)
  let begun := (inserted ++ document.described model).foldl Edit.apply model
  have same : begun.associations = model.associations := by
    refine associations_foldl_of_kept model fun edit member before => ?_
    rcases List.mem_append.mp member with insertion | description
    · obtain ⟨decl, _, rfl⟩ := List.mem_map.mp insertion
      rfl
    · rcases List.mem_append.mp description with parents | features
      · obtain ⟨decl, _, inside⟩ := List.mem_flatMap.mp parents
        exact decl.associations_apply_generalization inside before
      · obtain ⟨decl, _, inside⟩ := List.mem_flatMap.mp features
        exact decl.associations_apply_features inside before
  rw [← same]
  exact associations_foldl_associated (document.scopeIn model) complete.associations begun

-- A document links associations of its own only.
theorem mem_links {document : Document} {model : Model} {link : AssociationId × AssociationId}
    (member : link ∈ document.links model) :
    (model.nextAssociation.index ≤ link.1.index ∧
      link.1.index < model.nextAssociation.index + document.associations.length) ∧
    model.nextAssociation.index ≤ link.2.index ∧
      link.2.index < model.nextAssociation.index + document.associations.length := by
  obtain ⟨decl, _, directions⟩ := List.mem_filterMap.mp member
  obtain ⟨_, _, _, _, _, _, forward, backward⟩ :=
    AssociationDecl.directions?_eq_some_iff.mp directions
  exact ⟨AssociationDecl.index_of_withRole? forward, AssociationDecl.index_of_withRole? backward⟩

/-- The associations of a document in the model it has been loaded into. They run between the entities
that are named, and their inverses are those of the last links. -/
structure AssociationsLoaded (document : Document) (model loaded : Model) : Prop where
  ends : ∀ (place : Nat) decl, document.associations[place]? = some decl →
    let declared := loaded.associationAt ⟨model.nextAssociation.index + place⟩
    (document.scopeIn model).resolve? decl.entity1 = some declared.entity1 ∧
      (document.scopeIn model).resolve? decl.entity2 = some declared.entity2
  inverse : ∀ id, ¬ model.HasAssociation id → (loaded.associationAt id).inverse =
    ((document.links model).filterMap (partnerIn id)).getLast?

theorem IsComplete.associationsLoaded {document : Document} {model : Model}
    (complete : document.IsComplete model) (provenance : Provenance) :
    document.AssociationsLoaded model (model.load document provenance).model := by
  obtain ⟨added, described, associations⟩ := complete.associations_joined provenance
  rw [complete.load_eq_foldl_links provenance]
  generalize document.joined model provenance = joined at associations
  have new : ∀ place, joined.associations[model.associations.size + place]? = added[place]? := by
    intro place
    rw [← Array.getElem?_toList, associations, ← Array.length_toList,
      List.getElem?_append_right (Nat.le_add_right _ _), Nat.add_sub_cancel_left]
  have size : model.nextAssociation.index + document.associations.length =
      joined.associations.size := by
    rw [← Array.length_toList, associations, List.length_append, ← described.length_eq,
      Array.length_toList]
    rfl
  constructor
  case ends =>
    intro place decl found
    obtain ⟨inside, rfl⟩ := List.getElem?_eq_some_iff.mp found
    have also : place < added.length := described.length_eq ▸ inside
    have described := described.get inside also
    have here : joined.associationAt ⟨model.nextAssociation.index + place⟩ = added[place] := by
      rw [Model.associationAt, Model.nextAssociation, new, List.getElem?_eq_getElem also]
      rfl
    have kept := (Model.relinked_foldl_linkInverse joined (document.links model)
      ⟨model.nextAssociation.index + place⟩).parts
    rw [here] at kept
    have near := congrArg Association.entity1 kept.symm
    have far := congrArg Association.entity2 kept.symm
    exact ⟨(Scope.resolve_eq_ok_iff.mp described.near).trans (congrArg some near),
      (Scope.resolve_eq_ok_iff.mp described.far).trans (congrArg some far)⟩
  case inverse =>
    intro id missing
    have there : ∀ link ∈ document.links model,
        joined.HasAssociation link.1 ∧ joined.HasAssociation link.2 := fun link member =>
      ⟨Nat.lt_of_lt_of_eq (mem_links member).1.2 size, Nat.lt_of_lt_of_eq (mem_links member).2.2 size⟩
    have alone : (joined.associationAt id).inverse = none := by
      obtain ⟨place, same⟩ := Nat.exists_eq_add_of_le (Nat.le_of_not_lt missing)
      rw [Model.associationAt, same, new]
      cases found : added[place]? with
      | none => rfl
      | some association =>
        obtain ⟨inside, rfl⟩ := List.getElem?_eq_some_iff.mp found
        exact (described.get (described.length_eq ▸ inside) inside).alone
    rw [Model.inverse_foldl_linkInverse there, alone, Option.or_none]

/-! ## Running back -/

section

variable {document : Document} {model loaded : Model}
  (associations : document.AssociationsLoaded model loaded)

include associations

-- The entity an association was found at is the one it starts from.
theorem AssociationsLoaded.entity1_of_withRole? {entity : EntityId} {role : String}
    {id : AssociationId} (found : AssociationDecl.withRole? (document.scopeIn model)
      model.nextAssociation document.associations entity role = some id) :
    (loaded.associationAt id).entity1 = entity := by
  obtain ⟨place, decl, rfl, there, near, _⟩ := AssociationDecl.exists_of_withRole? found
  exact Option.some.inj ((associations.ends place decl there).1.symm.trans near)

/-- Whether the two directions of a declaration lead to the entities that the declaration names. -/
def AssociationDecl.Leads (scope : Scope) (loaded : Model) (decl : AssociationDecl)
    (forward backward : AssociationId) : Prop :=
  scope.resolve? decl.entity2 = some (loaded.far forward) ∧
    scope.resolve? decl.entity1 = some (loaded.far backward)

theorem AssociationsLoaded.runsBack_iff {decl : AssociationDecl} {forward backward : AssociationId}
    (directions : decl.directions? (document.scopeIn model) model.nextAssociation
      document.associations = some (forward, backward)) :
    loaded.RunsBack forward backward ↔
      decl.Leads (document.scopeIn model) loaded forward backward := by
  obtain ⟨role, entity1, entity2, _, near, far, foundForward, foundBackward⟩ :=
    AssociationDecl.directions?_eq_some_iff.mp directions
  rw [Model.RunsBack, AssociationDecl.Leads, near, far,
    associations.entity1_of_withRole? foundForward, associations.entity1_of_withRole? foundBackward,
    Option.some.injEq, Option.some.injEq]
  exact and_congr_right' eq_comm

end

end Document

/-- The associations of an accepted document run between the entities they name, and each has the
partner of the last link it is in. All of them run back exactly when the two associations of every
link that still holds at one side lead to the entities that the linking declaration names. -/
theorem Model.load_inverses {model : Model} {document : Document} {provenance : Provenance}
    {created : List EntityId} (accepted : (model.load document provenance).result = .ok created) :
    let loaded := (model.load document provenance).model
    document.AssociationsLoaded model loaded ∧
    ((∀ near far, ¬ model.HasAssociation near → (loaded.associationAt near).inverse = some far →
        loaded.RunsBack near far) ↔
      ∀ decl ∈ document.associations, ∀ forward backward,
        decl.directions? (document.scopeIn model) model.nextAssociation document.associations =
          some (forward, backward) →
        ((loaded.associationAt forward).inverse = some backward ∨
          (loaded.associationAt backward).inverse = some forward) →
        decl.Leads (document.scopeIn model) loaded forward backward) := by
  intro loaded
  obtain ⟨failure, -⟩ := (model.load_result_eq_ok_iff document provenance created).mp accepted
  have associations : document.AssociationsLoaded model loaded :=
    (Document.isComplete_of_failure_none failure).associationsLoaded provenance
  refine ⟨associations, ?_⟩
  constructor
  · intro back decl member forward backward directions holds
    have linked : (forward, backward) ∈ document.links model :=
      List.mem_filterMap.mpr ⟨decl, member, directions⟩
    obtain ⟨⟨forwardNew, _⟩, backwardNew, _⟩ := Document.mem_links linked
    rw [← associations.runsBack_iff directions]
    rcases holds with there | here
    · exact back forward backward (Nat.not_lt_of_le forwardNew) there
    · exact (back backward forward (Nat.not_lt_of_le backwardNew) here).symm
  · intro leads near far new partner
    have last := (associations.inverse near new).symm.trans partner
    obtain ⟨link, member, given⟩ := List.mem_filterMap.mp (List.mem_of_getLast? last)
    obtain ⟨decl, among, directions⟩ := List.mem_filterMap.mp member
    rcases partnerIn_eq_some_iff given with rfl | rfl
    · have led := leads decl among far near directions (.inr partner)
      exact ((associations.runsBack_iff directions).mpr led).symm
    · have led := leads decl among near far directions (.inl partner)
      exact (associations.runsBack_iff directions).mpr led

/-- Customers and vehicles, with the holder of a vehicle as the inverse of a customer's vehicle, and
further holders that do not run back. -/
def rentals (further : List Document.AssociationDecl) : Document where
  entities := [{ name := "Customer" }, { name := "Vehicle" }, { name := "Garage" }]
  associations := [
    { entity1 := "Customer", entity2 := "Vehicle", role2 := "vehicle", inverse := some "holder" },
    { entity1 := "Vehicle", entity2 := "Customer", role2 := "holder" }] ++ further

/-- Without further holders the two associations run back. -/
theorem load_inverses_rentals :
    (Model.empty.load (rentals []) .shared).result = .ok [⟨0⟩, ⟨1⟩, ⟨2⟩] ∧
      ((Model.empty.load (rentals []) .shared).model.associationAt ⟨0⟩).inverse = some ⟨1⟩ ∧
      ∀ near far, ((Model.empty.load (rentals []) .shared).model.associationAt near).inverse =
        some far → (Model.empty.load (rentals []) .shared).model.RunsBack near far := by
  have accepted : (Model.empty.load (rentals []) .shared).result = .ok [⟨0⟩, ⟨1⟩, ⟨2⟩] :=
    (Model.load_result_eq_ok_iff _ _ _ _).mpr ⟨by decide +kernel, by decide⟩
  obtain ⟨associations, runBack⟩ := Model.load_inverses accepted
  refine ⟨accepted, ?_, fun near far => runBack.mpr ?_ near far (Nat.not_lt_zero _)⟩
  · rw [associations.inverse ⟨0⟩ (Nat.not_lt_zero _)]
    decide +kernel
  · intro decl member forward backward directions _
    simp only [rentals, List.append_nil, List.mem_cons, List.not_mem_nil, or_false] at member
    rcases member with rfl | rfl
    · have found : Document.AssociationDecl.directions? ((rentals []).scopeIn .empty)
          Model.empty.nextAssociation (rentals []).associations
          { entity1 := "Customer", entity2 := "Vehicle", role2 := "vehicle",
            inverse := some "holder" } = some (⟨0⟩, ⟨1⟩) := by decide +kernel
      cases found.symm.trans directions
      exact ⟨by decide +kernel, by decide +kernel⟩
    · cases directions

/-- A garage is the last holder of a vehicle, and the customer's vehicle gets it as its inverse. -/
theorem load_rentals_astray :
    ¬ ∀ (document : Document) (provenance : Provenance) (created : List EntityId),
      (Model.empty.load document provenance).result = .ok created →
        ∀ near far, ((Model.empty.load document provenance).model.associationAt near).inverse =
          some far → (Model.empty.load document provenance).model.RunsBack near far := by
  intro back
  let garages : List Document.AssociationDecl :=
    [{ entity1 := "Vehicle", entity2 := "Garage", role2 := "holder" }]
  have accepted : (Model.empty.load (rentals garages) .shared).result = .ok [⟨0⟩, ⟨1⟩, ⟨2⟩] :=
    (Model.load_result_eq_ok_iff _ _ _ _).mpr ⟨by decide +kernel, by decide⟩
  have linked : ((Model.empty.load (rentals garages) .shared).model.associationAt ⟨0⟩).inverse =
      some ⟨2⟩ := by decide +kernel
  have apart : ¬ (Model.empty.load (rentals garages) .shared).model.RunsBack ⟨0⟩ ⟨2⟩ := by
    decide +kernel
  exact apart (back _ _ _ accepted _ _ linked)

end ClassModel
