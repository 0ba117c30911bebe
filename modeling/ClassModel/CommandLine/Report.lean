import ClassModel.CommandLine.Styled
import ClassModel.Copies.Flatten
import ClassModel.Features.Nonlocal
import ClassModel.Inheritance.Subclasses
import ClassModel.Json.Printer
import ClassModel.Matching.Engine
import ClassModel.Matching.Rows

/-! What is shown of a model: as lines for a reader, and as JSON. -/

set_option autoImplicit false

namespace ClassModel.CommandLine

/-! ## Findings -/

def diagnosticSpan (diagnostic : Diagnostic) : Span :=
  match diagnostic with
  | .cycle .. => .inked .red diagnostic.kind
  | .unresolved .. => .dimmed diagnostic.kind
  | _ => .inked .yellow diagnostic.kind

def diagnosticLine (diagnostic : Diagnostic) : Line :=
  [.plain "  ", diagnosticSpan diagnostic, .plain " ", .plain diagnostic.text]

/-- The log behind a report, unless it is empty. -/
def diagnosticLines (log : Diagnostics) : List Line :=
  if log.isEmpty then []
  else .empty :: [.titled .yellow "Diagnostics", .plain (" (" ++ toString log.size ++ ")")] ::
    log.entries.map diagnosticLine

/-! ## Features of an entity -/

structure FeatureRow where
  name : String
  type : String
  owner : String

namespace FeatureRow

def of (model : Model) (feature : Feature) : FeatureRow :=
  ⟨feature.name, model.typeName feature.type, model.name feature.owner⟩

def ofAttribute (model : Model) (id : AttributeId) : FeatureRow :=
  let declared := model.attributeAt id
  ⟨declared.name, model.typeName declared.type, model.name declared.owner⟩

def ofAssociation (model : Model) (id : AssociationId) : FeatureRow :=
  let association := model.associationAt id
  ⟨association.role2, model.typeName association.farType, model.name association.entity1⟩

/-- The row as a JSON object; the last member is named by what the rows are about. -/
def toJson (ownerName : String) (row : FeatureRow) : Json :=
  .object [("name", .string row.name), ("type", .string row.type), (ownerName, .string row.owner)]

def line (row : FeatureRow) : Line :=
  [.plain "  ", (Span.plain row.name).wide 32, .plain " ", (Span.inked .yellow row.type).wide 24,
    .plain " ", .dimmed row.owner]

end FeatureRow

structure FeatureReport where
  entity : String
  ancestors : List String
  attributes : List FeatureRow
  associations : List FeatureRow
  operations : List String
  localFeatures : List FeatureRow
  nonlocalFeatures : List FeatureRow
  composed : List FeatureRow
  primaryKey : Option String
  uniqueKey : Option String

namespace FeatureReport

/-- Everything known about the features of an entity. -/
def of (model : Model) (id : EntityId) (policy : PathPolicy) (depth : Nat) :
    Noted FeatureReport := do
  let ancestors ← Noted.of (model.ancestors id) (model.chainFindings id)
  let attributes ← Noted.of (model.definedAttributes id) (model.attributeFindings id)
  let associations ← Noted.of (model.definedAssociations id) (model.associationFindings id)
  let operations ← Noted.of (model.definedOperations id) (model.operationFindings id)
  let nonlocalFeatures ← Noted.of (model.nonlocalFeatures id) (model.nonlocalFindings id)
  let paths ← Noted.of (model.composedPaths policy id [] depth)
    (model.composedFindings policy id [] depth)
  let primaryKey ← Noted.of (model.primaryKey? id) (model.keyFindings id (model.primaryKey? id))
  let uniqueKey ← Noted.of (model.uniqueKey? id) (model.keyFindings id (model.uniqueKey? id))
  let keyName := fun key => (model.attributeAt key).name
  return {
    entity := model.name id
    ancestors := ancestors.map model.name
    attributes := attributes.map (.ofAttribute model)
    associations := associations.map (.ofAssociation model)
    operations := operations.map fun operation => (model.operationAt operation).name
    localFeatures := (model.localFeatures id).map (.of model)
    nonlocalFeatures := nonlocalFeatures.map (.of model)
    composed := paths.map fun path => .of model (model.pathFeature id path)
    primaryKey := primaryKey.map keyName
    uniqueKey := uniqueKey.map keyName }

def rowsJson (rows : List FeatureRow) : Json := .array (rows.map (FeatureRow.toJson "owner"))

def toJson (report : FeatureReport) (log : Diagnostics) : Json :=
  .object [("entity", .string report.entity), ("ancestors", .strings report.ancestors),
    ("attributes", rowsJson report.attributes), ("associations", rowsJson report.associations),
    ("operations", .strings report.operations), ("local", rowsJson report.localFeatures),
    ("nonlocal", rowsJson report.nonlocalFeatures), ("composed", rowsJson report.composed),
    ("primary_key", .ofOption .string report.primaryKey),
    ("unique_key", .ofOption .string report.uniqueKey), ("diagnostics", log.toJson)]

def rowLines (title : String) (rows : List FeatureRow) : List Line :=
  .empty :: [.titled .cyan title, .plain (" (" ++ toString rows.length ++ ")")] ::
    rows.map FeatureRow.line

def ancestorLines (report : FeatureReport) : List Line :=
  if report.ancestors.isEmpty then []
  else [[.plain "  ", .dimmed "extends", .plain " ", .plain (" < ".intercalate report.ancestors)]]

def operationLines (report : FeatureReport) : List Line :=
  if report.operations.isEmpty then []
  else .empty :: [.titled .cyan "Operations"] ::
    report.operations.map fun name => [.plain ("  " ++ name ++ "()")]

def keyLine (report : FeatureReport) : Line :=
  [.bold "Primary key:", .plain (" " ++ report.primaryKey.getD "-" ++ "   "),
    .bold "Unique key:", .plain (" " ++ report.uniqueKey.getD "-")]

def lines (report : FeatureReport) (policy : PathPolicy) (depth : Nat) : List Line :=
  [.bold "Entity", .plain " ", .titled .brightGreen report.entity] ::
    report.ancestorLines ++
    rowLines "All defined attributes" report.attributes ++
    rowLines "All defined associations" report.associations ++
    report.operationLines ++
    rowLines "Local features" report.localFeatures ++
    rowLines "Nonlocal features" report.nonlocalFeatures ++
    rowLines ("Composed paths (" ++ policy.label ++ ", depth " ++ toString depth ++ ")")
      report.composed ++
    [.empty, report.keyLine]

end FeatureReport

/-! ## Subclasses -/

def subclassLine (model : Model) (id : EntityId) : Line :=
  let parent := ((model.superclass id).map model.name).getD ""
  [.plain "  ", (Span.plain (model.name id)).wide 32, .plain " ", .dimmed ("< " ++ parent)]

def subclassLines (walk : SubclassWalk) (entity : String) (leavesOnly : Bool) : List Line :=
  [.bold (if leavesOnly then "Leaf subclasses of" else "Subclasses of"), .plain " ",
    .titled .brightGreen entity, .plain (" (" ++ toString walk.found.length ++ ")")] ::
    walk.found.map (subclassLine walk.model)

/-! ## Flattened copies -/

structure FlatEntity where
  name : String
  superclass : Option String
  attributes : List FeatureRow

namespace FlatEntity

def of (model : Model) (copy : EntityId) : FlatEntity :=
  { name := model.name copy
    superclass := (model.superclass copy).map model.name
    attributes := (model.entityAt copy).attributes.map (.ofAttribute model) }

/-- The copies of entities, in the order of the entities. -/
def ofCopying (copying : Model.Copying) (selected : List EntityId) : List FlatEntity :=
  (selected.filterMap copying.copies.copyOf?).map (of copying.model)

def toJson (entity : FlatEntity) : Json :=
  .object [("name", .string entity.name), ("superclass", .ofOption .string entity.superclass),
    ("attributes", .array (entity.attributes.map (FeatureRow.toJson "declared_in")))]

def lines (entity : FlatEntity) : List Line :=
  let title : Span := .titled .brightGreen entity.name
  (match entity.superclass with
    | some parent => [title, .plain " ", .dimmed ("< " ++ parent)]
    | none => [title]) ::
    entity.attributes.map FeatureRow.line ++ [.empty]

end FlatEntity

/-! ## Matches -/

def featureMatchLine (found : FeatureMatch) : Line :=
  [.plain "  ", (Span.plain found.source.name).wide 28, .plain " -> ",
    (Span.plain found.target.name).wide 28, .plain " ",
    (Span.inked .cyan found.kind.label).wide 12, .plain (" " ++ Decimal.fixed found.score 3)]

def entityMatchLines (model : Model) (found : EntityMatch) : List Line :=
  .empty ::
    [.titled .brightGreen (model.name found.source), .plain " -> ",
      .titled .brightGreen (model.name found.target), .plain "  ",
      .dimmed ("score " ++ Decimal.fixed found.score 3)] ::
    found.featureMatches.map featureMatchLine

/-- The sources without a target, unless all have one. -/
def unmatchedLines (model : Model) (mapping : Mapping) (sources : List EntityId) : List Line :=
  let unmatched := sources.filter fun source => (mapping.get? source).isNone
  if unmatched.isEmpty then []
  else [.empty, [.titled .yellow "Unmatched:", .plain " ",
    .plain (", ".intercalate (unmatched.map model.name))]]

def matchingLines (model : Model) (strict : Bool) (sources : List EntityId)
    (matching : Engine.Matching) : List Line :=
  [.bold "Matched", .plain " ", .titled .brightGreen (toString matching.matched),
    .plain (" of " ++ toString sources.length ++ " source entities (" ++
      (if strict then "strict" else "lenient") ++ " mode)")] ::
    matching.mapping.entries.flatMap (entityMatchLines model) ++
    unmatchedLines model matching.mapping sources

/-- Where the table of a mapping was written, if it was. -/
def writtenLines : Option String → List Line
  | some path => [.empty, [.plain "CSV written to ", .inked .cyan path]]
  | none => []

end ClassModel.CommandLine
