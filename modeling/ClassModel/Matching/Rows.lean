import ClassModel.Matching.Mapping
import ClassModel.Model.Basic
import ClassModel.Json.Basic

/-! A mapping as a table.

Every correspondence is a row, followed by a row for each of its feature matches. As text the table
has comma-separated fields, and a first line with the names of the columns unless there are no rows.
-/

set_option autoImplicit false

namespace ClassModel

structure MappingRow where
  sourceEntity : String
  targetEntity : String
  sourceFeature : String
  targetFeature : String
  kind : String
  score : Float

namespace MappingRow

def columns : List String :=
  ["source_entity", "target_entity", "source_feature", "target_feature", "match_type", "score"]

def toJson (row : MappingRow) : Json :=
  .object (columns.zip [.string row.sourceEntity, .string row.targetEntity,
    .string row.sourceFeature, .string row.targetFeature, .string row.kind, .score row.score])

def cells (row : MappingRow) : List String :=
  [row.sourceEntity, row.targetEntity, row.sourceFeature, row.targetFeature, row.kind,
    Decimal.scored row.score]

end MappingRow

def Mapping.rows (mapping : Mapping) (model : Model) : List MappingRow :=
  mapping.entries.flatMap fun entry =>
    let row := MappingRow.mk (model.name entry.source) (model.name entry.target)
    row "" "" "[Entity]" entry.score ::
      entry.featureMatches.map fun pair =>
        row pair.source.name pair.target.name pair.kind.label pair.score

namespace Csv

def needsQuotes (cell : String) : Bool :=
  cell.toList.any fun c => c = ',' || c = '"' || c = '\n' || c = '\r'

/-- A quoted field has every quote twice. -/
def quoted (cell : String) : String :=
  "\"" ++ String.ofList (cell.toList.flatMap fun c => if c = '"' then ['"', '"'] else [c]) ++ "\""

def field (cell : String) : String := if needsQuotes cell then quoted cell else cell

def line (cells : List String) : String := ",".intercalate (cells.map field) ++ "\n"

end Csv

def MappingRow.csv (rows : List MappingRow) : String :=
  if rows.isEmpty then ""
  else Csv.line columns ++ String.join (rows.map fun row => Csv.line row.cells)

end ClassModel
