import ClassModel.Association
import ClassModel.Document.Basic
import ClassModel.Entity
import ClassModel.Json.Outline
import ClassModel.Matching.Mapping
import ClassModel.Operation

/-! Model elements as JSON values.

Every record is an object of its fields in the order of their declaration, a choice is its name, and
elements are referred to by number.
-/

set_option autoImplicit false

namespace ClassModel.Exchange

/-- A number; one that JSON has no number for is written as its name. -/
def floatJson (x : Float) : Json :=
  match Decimal.scored? x with
  | some literal => .number literal
  | none => .string (Decimal.scored x)

def entityJson (id : EntityId) : Json := .natural id.index

def entitiesJson (ids : List EntityId) : Json := .array (ids.map entityJson)

def pairJson (first second : Json) : Json := .array [first, second]

def fieldsJson (flags : List (String × Bool)) : Json :=
  .object (flags.map fun entry => (entry.1, .bool entry.2))

/-! ## Flags, in the alphabetical order of their names -/

def attributeFlagList (flags : AttributeFlags) : List (String × Bool) :=
  [("class_scope", flags.classScope), ("derived", flags.derived), ("frozen", flags.frozen),
   ("identity", flags.identity), ("multiple", flags.multiple), ("unique", flags.unique)]

def associationFlagList (flags : AssociationFlags) : List (String × Bool) :=
  [("add_only", flags.addOnly), ("aggregation", flags.aggregation), ("frozen", flags.frozen),
   ("ordered", flags.ordered), ("qualified", flags.qualified), ("sorted", flags.sorted)]

def operationFlagList (flags : OperationFlags) : List (String × Bool) :=
  [("is_abstract", flags.isAbstract), ("is_static", flags.isStatic), ("query", flags.query)]

/-! ## Elements -/

def typeJson : TypeExpr → Json
  | .primitive name => .object [("Primitive", .string name)]
  | .entity id => .object [("Entity", entityJson id)]
  | .collection kind element =>
    .object [("Collection", .object [("kind", .string kind.label), ("element", typeJson element)])]

def stepJson : Step → Json
  | .attribute id => .object [("Attribute", .natural id.index)]
  | .role id => .object [("Role", .natural id.index)]

def stepsJson (path : Path) : Json := .array (path.map stepJson)

def wholeFeatureJson (feature : Feature) : Json :=
  .object [("name", .string feature.name), ("type", typeJson feature.type),
    ("owner", entityJson feature.owner), ("flags", fieldsJson (attributeFlagList feature.flags)),
    ("path", stepsJson feature.path)]

def multiplicityName : Multiplicity → String
  | .one => "One"
  | .zeroOrOne => "ZeroOne"
  | .many => "Many"

def cardinalityJson : Cardinality → Json
  | .exact count => .object [("Exact", .natural count.toNat)]
  | .unbounded => .string "Unbounded"
  | .upTo count => .object [("UpTo", .natural count.toNat)]

def roleName : EntityRole → String
  | .concrete => "Concrete"
  | .abstract => "Abstract"
  | .interface => "Interface"

def provenanceName : Provenance → String
  | .shared => "Shared"
  | .source => "Source"
  | .target => "Target"

def kindName : MatchKind → String
  | .inherited => "Inherited"
  | .exactNameType => "ExactNameType"
  | .exactType => "ExactType"
  | .composedType => "ComposedType"
  | .partialType => "PartialType"

def associationIdJson (id : AssociationId) : Json := .natural id.index

def wholeEntityJson (entity : Entity) : Json :=
  .object [("name", .string entity.name), ("superclass", .ofOption entityJson entity.superclass),
    ("parents", entitiesJson entity.parents), ("children", entitiesJson entity.children),
    ("attributes", .array (entity.attributes.map fun id => .natural id.index)),
    ("associations", .array (entity.associations.map fun id => .natural id.index)),
    ("operations", .array (entity.operations.map fun id => .natural id.index)),
    ("invariants", .array (entity.invariants.map fun id => .natural id.index)),
    ("role", .string (roleName entity.role)),
    ("provenance", .string (provenanceName entity.provenance)),
    ("capabilities", fieldsJson [("leaf", entity.capabilities.leaf),
      ("active", entity.capabilities.active), ("singleton", entity.capabilities.singleton),
      ("external", entity.capabilities.external), ("derived", entity.capabilities.derived)]),
    ("tags", .strings entity.tags), ("cardinality", .ofOption cardinalityJson entity.cardinality),
    ("linked_association", .ofOption associationIdJson entity.linkedAssociation),
    ("copy_of", .ofOption entityJson entity.copyOf)]

def wholeAttributeJson (declared : Attribute) : Json :=
  .object ([("name", .string declared.name), ("type", typeJson declared.type),
    ("flags", fieldsJson (attributeFlagList declared.flags)),
    ("owner", entityJson declared.owner)] ++
    (declared.path.map fun path => ("path", stepsJson path)).toList)

def wholeAssociationJson (association : Association) : Json :=
  .object [("entity1", entityJson association.entity1), ("entity2", entityJson association.entity2),
    ("role1", .ofOption .string association.role1), ("role2", .string association.role2),
    ("card1", .string (multiplicityName association.card1)),
    ("card2", .string (multiplicityName association.card2)),
    ("flags", fieldsJson (associationFlagList association.flags)),
    ("inverse", .ofOption associationIdJson association.inverse)]

def invariantJson (rule : Invariant) : Json :=
  .object [("antecedent", .string rule.antecedent), ("consequent", .string rule.consequent),
    ("owner", entityJson rule.owner), ("local", .bool rule.isLocal)]

def documentErrorJson (error : DocumentError) : Json :=
  let name := match error with
    | .unknownEntity .. => "UnknownEntity"
    | .invalidType .. => "InvalidType"
    | .invalidMultiplicity .. => "InvalidMultiplicity"
  .object [("error", .string name), ("message", .string error.message)]

def faultJson (fault : Json.Fault) : Json :=
  let category := match fault with
    | .endOfText => "Eof"
    | .malformed => "Syntax"
    | .misshapen => "Data"
  .object [("error", .string "Json"), ("category", .string category),
    ("message", .string "Failed to parse model document")]

/-! ## Documents -/

def parameterDeclJson (decl : Document.ParameterDecl) : Json :=
  .object [("name", .string decl.name), ("type", .string decl.type)]

def attributeDeclJson (decl : Document.AttributeDecl) : Json :=
  .object [("name", .string decl.name), ("type", .string decl.type), ("flags", .strings decl.flags)]

def operationDeclJson (decl : Document.OperationDecl) : Json :=
  .object [("name", .string decl.name), ("params", .array (decl.params.map parameterDeclJson)),
    ("result", .ofOption .string decl.result), ("flags", .strings decl.flags)]

def invariantDeclJson (decl : Document.InvariantDecl) : Json :=
  .object [("antecedent", .string decl.antecedent), ("consequent", .string decl.consequent),
    ("local", .bool decl.isLocal)]

def entityDeclJson (decl : Document.EntityDecl) : Json :=
  .object [("name", .string decl.name), ("superclass", .ofOption .string decl.superclass),
    ("parents", .strings decl.parents), ("stereotypes", .strings decl.stereotypes),
    ("cardinality", .ofOption .string decl.cardinality),
    ("attributes", .array (decl.attributes.map attributeDeclJson)),
    ("operations", .array (decl.operations.map operationDeclJson)),
    ("invariants", .array (decl.invariants.map invariantDeclJson))]

def associationDeclJson (decl : Document.AssociationDecl) : Json :=
  .object [("entity1", .string decl.entity1), ("entity2", .string decl.entity2),
    ("role1", .ofOption .string decl.role1), ("role2", .string decl.role2),
    ("card1", .string decl.card1), ("card2", .string decl.card2), ("flags", .strings decl.flags),
    ("inverse", .ofOption .string decl.inverse)]

def documentJson (document : Document) : Json :=
  .object [("entities", .array (document.entities.map entityDeclJson)),
    ("associations", .array (document.associations.map associationDeclJson))]

end ClassModel.Exchange
