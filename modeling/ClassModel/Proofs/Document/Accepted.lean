import ClassModel.Proofs.Document.Loading

/-! Documents that are accepted.

Every part of such a document has been read to its end, so its edits are those of all declarations,
part by part.
-/

set_option autoImplicit false

namespace ClassModel

theorem Model.load_result_eq_ok_iff (model : Model) (document : Document) (provenance : Provenance)
    (created : List EntityId) :
    (model.load document provenance).result = .ok created ↔
      (document.script model provenance).failure = none ∧ created = document.created model := by
  unfold load
  dsimp only
  cases (document.script model provenance).failure with
  | none => simp [eq_comm]
  | some error => simp

namespace Document

/-- No declaration of a document ends its loading. -/
structure IsComplete (document : Document) (model : Model) : Prop where
  generalization : ∀ decl ∈ document.entities,
    (decl.generalization (document.scopeIn model)).failure = none
  features : ∀ decl ∈ document.entities, (decl.features (document.scopeIn model)).failure = none
  associations : ∀ decl ∈ document.associations,
    (decl.script (document.scopeIn model)).failure = none
  inverses : ∀ decl ∈ document.associations,
    (AssociationDecl.inverseLink (document.scopeIn model) model.nextAssociation
      document.associations decl).failure = none

variable {document : Document} {model : Model}

theorem isComplete_of_failure_none {provenance : Provenance}
    (complete : (document.script model provenance).failure = none) :
    document.IsComplete model := by
  simp only [script, Script.failure_andThen_eq_none, Script.failure_ofList_eq_none] at complete
  obtain ⟨_, generalization, features, associations, inverses, _⟩ := complete
  exact ⟨generalization, features, associations, inverses⟩

/-- The edits that describe the entities of a document, once all of them are there. -/
def described (document : Document) (model : Model) : List Edit :=
  (document.entities.flatMap fun decl => (decl.generalization (document.scopeIn model)).edits) ++
    document.entities.flatMap fun decl => (decl.features (document.scopeIn model)).edits

/-- The edits that add the associations of a document. -/
def associated (document : Document) (model : Model) : List Edit :=
  document.associations.flatMap fun decl => (decl.script (document.scopeIn model)).edits

/-- The edits that link the associations of a document. -/
def linked (document : Document) (model : Model) : List Edit :=
  document.associations.flatMap fun decl => (AssociationDecl.inverseLink (document.scopeIn model)
    model.nextAssociation document.associations decl).edits

theorem IsComplete.edits_script (complete : document.IsComplete model) (provenance : Provenance) :
    (document.script model provenance).edits =
      (document.entities.map fun decl => .insertEntity (decl.toEntity provenance)) ++
        (document.described model ++ (document.associated model ++ document.linked model)) := by
  have creation : (Script.ofList (EntityDecl.creation provenance) document.entities).failure = none :=
    Script.failure_ofList_eq_none.mpr fun _ _ => rfl
  unfold script
  rw [Script.edits_andThen_of_failure_none _ _ creation, edits_creation,
    Script.edits_andThen_of_failure_none _ _
      (Script.failure_ofList_eq_none.mpr complete.generalization),
    Script.edits_andThen_of_failure_none _ _ (Script.failure_ofList_eq_none.mpr complete.features),
    Script.edits_andThen_of_failure_none _ _
      (Script.failure_ofList_eq_none.mpr complete.associations),
    Script.edits_andThen_of_failure_none _ _ (Script.failure_ofList_eq_none.mpr complete.inverses),
    Script.edits_ofList _ _ complete.generalization, Script.edits_ofList _ _ complete.features,
    Script.edits_ofList _ _ complete.associations, Script.edits_ofList _ _ complete.inverses]
  simp [described, associated, linked]

end Document

end ClassModel
