import ClassModel.Inheritance.Defined

/-! Features of a model: attributes, association ends and paths read as attributes. -/

set_option autoImplicit false

namespace ClassModel.Model

/-- A declared attribute, or the path it stands for. -/
def attributeFeature (model : Model) (id : AttributeId) : Feature :=
  let declared := model.attributeAt id
  { name := declared.name
    type := declared.type
    owner := declared.owner
    flags := declared.flags
    path := declared.path.getD [.attribute id] }

/-- The flags of an association end read as an attribute. -/
def roleFlags (association : Association) : AttributeFlags :=
  { multiple := association.isMany, frozen := association.flags.frozen }

/-- The far end of an association, as an attribute of the near one. -/
def roleFeature (model : Model) (id : AssociationId) : Feature :=
  let association := model.associationAt id
  { name := association.role2
    type := association.farType
    owner := association.entity1
    flags := roleFlags association
    path := [.role id] }

/-- The type and flags at the end of a path; a path without steps leads nowhere. -/
def endOfPath (model : Model) (path : Path) : TypeExpr × AttributeFlags :=
  match path.getLast? with
  | some (.attribute id) => ((model.attributeAt id).type, (model.attributeAt id).flags)
  | some (.role id) => ((model.roleFeature id).type, (model.roleFeature id).flags)
  | none => (.primitive "void", {})

/-- Whether a role before the last step leads to many entities. -/
def branches (model : Model) (path : Path) : Bool :=
  (Path.roles path.dropLast).any fun role => (model.associationAt role).isMany

/-- The feature a path leads to. It is a set when the path branches on its way. -/
def pathFeature (model : Model) (root : EntityId) (path : Path) : Feature :=
  let (type, flags) := model.endOfPath path
  let branching := model.branches path
  { name := model.pathName path
    type := if branching then .setOf type.elementType else type
    owner := root
    flags := { flags with multiple := branching || flags.multiple }
    path }

/-- An entity's own attributes, then the far ends of its own associations. -/
def localFeatures (model : Model) (id : EntityId) : List Feature :=
  let entity := model.entityAt id
  entity.attributes.map model.attributeFeature ++ entity.associations.map model.roleFeature

end ClassModel.Model
