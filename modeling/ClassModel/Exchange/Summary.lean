import ClassModel.Copies.Relabelling
import ClassModel.Exchange.Encode

/-! Short forms of model elements for reports.

A type is text: a primitive type is marked with the letter p, an entity with the letter e and its
number. A path is the list of its steps, each a letter and a number; of flags only the names of
those that are set are given.
-/

set_option autoImplicit false

namespace ClassModel.Exchange

def setNames (flags : List (String × Bool)) : Json :=
  .strings ((flags.filter (·.2)).map (·.1))

def typeText : TypeExpr → String
  | .primitive name => "p:" ++ name
  | .entity id => "e:" ++ toString id.index
  | .collection kind element => kind.label ++ "(" ++ typeText element ++ ")"

def typeTextJson (type : TypeExpr) : Json := .string (typeText type)

def stepText : Step → String
  | .attribute id => "A" ++ toString id.index
  | .role id => "R" ++ toString id.index

def pathJson (path : Path) : Json := .strings (path.map stepText)

def featureJson (feature : Feature) : Json :=
  .object [("name", .string feature.name), ("type", typeTextJson feature.type),
    ("owner", entityJson feature.owner), ("flags", setNames (attributeFlagList feature.flags)),
    ("path", pathJson feature.path)]

def entityMatchJson (found : EntityMatch) : Json :=
  .object [("source", entityJson found.source), ("target", entityJson found.target),
    ("score", floatJson found.score),
    ("matches", .array (found.featureMatches.map fun pair =>
      .object [("kind", .string (kindName pair.kind)), ("score", floatJson pair.score),
        ("source", featureJson pair.source), ("target", featureJson pair.target)]))]

def mappingJson (mapping : Mapping) : Json := .array (mapping.entries.map entityMatchJson)

def dumpJson (model : Model) (id : EntityId) : Json :=
  let entity := model.entityAt id
  .object [("id", entityJson id), ("entity", wholeEntityJson entity),
    ("stereotypes", .strings entity.stereotypes),
    ("attributes", .array (entity.attributes.map fun id =>
      let declared := model.attributeAt id
      .object [("name", .string declared.name), ("type", typeTextJson declared.type),
        ("type_name", .string (model.typeName declared.type)),
        ("owner", entityJson declared.owner),
        ("flags", setNames (attributeFlagList declared.flags)),
        ("path", .ofOption pathJson declared.path)])),
    ("associations", .array (entity.associations.map fun id =>
      let association := model.associationAt id
      .object [("entity1", entityJson association.entity1),
        ("entity2", entityJson association.entity2),
        ("role1", .ofOption .string association.role1), ("role2", .string association.role2),
        ("card1", .string association.card1.label), ("card2", .string association.card2.label),
        ("flags", setNames (associationFlagList association.flags)),
        ("inverse", .ofOption associationIdJson association.inverse)])),
    ("operations", .array (entity.operations.map fun id =>
      let operation := model.operationAt id
      .object [("name", .string operation.name), ("owner", entityJson operation.owner),
        ("flags", setNames (operationFlagList operation.flags)),
        ("params", .array (operation.params.map fun param =>
          pairJson (.string param.name) (typeTextJson param.type))),
        ("result", .ofOption typeTextJson operation.result)])),
    ("invariants", .array (entity.invariants.map fun id => invariantJson (model.invariantAt id)))]

def copiesJson (copies : EntityCopies) : Json :=
  .array (copies.map fun pair => pairJson (entityJson pair.1) (entityJson pair.2))

end ClassModel.Exchange
