import ClassModel.Association
import ClassModel.Attribute
import ClassModel.Decimal.Reader
import ClassModel.Diagnostic
import ClassModel.Entity
import ClassModel.Naming.Thesaurus
import ClassModel.Operation

/-! Reading model elements from JSON values.

Records are objects of their fields, and numbers stand for elements. A field that may be left out
may also be null. What cannot be read is refused with a reason.
-/

set_option autoImplicit false

namespace ClassModel.Exchange

abbrev Read := Except String

/-! ## Values -/

/-- The member of this name, unless it is missing or null. -/
def member? (json : Json) (key : String) : Option Json :=
  match json.get? key with
  | some .null => none
  | found => found

def field (json : Json) (key : String) : Read Json :=
  match json.get? key with
  | some value => .ok value
  | none => .error ("missing " ++ key)

def asText : Json → Read String
  | .string text => .ok text
  | _ => .error "text expected"

def asNat : Json → Read Nat
  | .number literal =>
    match literal.toNat? with
    | some n => .ok n
    | none => .error "natural number expected"
  | _ => .error "natural number expected"

def asFlag : Json → Read Bool
  | .bool value => .ok value
  | _ => .error "flag expected"

def asList {α : Type} (read : Json → Read α) : Json → Read (List α)
  | .array items => items.mapM read
  | _ => .error "list expected"

/-- A number, or the name of one that JSON has no number for. -/
def asFloat : Json → Read Float
  | .number literal => .ok (Decimal.floatOf literal.toList)
  | .string "NaN" => .ok (0.0 / 0.0)
  | .string "nan" => .ok (0.0 / 0.0)
  | .string "inf" => .ok (1.0 / 0.0)
  | .string "-inf" => .ok (-1.0 / 0.0)
  | _ => .error "number expected"

def asPair {α β : Type} (readFirst : Json → Read α) (readSecond : Json → Read β) :
    Json → Read (α × β)
  | .array [first, second] => do return (← readFirst first, ← readSecond second)
  | _ => .error "pair expected"

/-! ## Fields -/

def text (json : Json) (key : String) : Read String := do asText (← field json key)

def nat (json : Json) (key : String) : Read Nat := do asNat (← field json key)

def list {α : Type} (read : Json → Read α) (json : Json) (key : String) : Read (List α) := do
  asList read (← field json key)

def optional {α : Type} (read : Json → Read α) (json : Json) (key : String) : Read (Option α) :=
  (member? json key).mapM read

def withDefault {α : Type} (read : Json → Read α) (start : α) (json : Json) (key : String) :
    Read α := do return (← optional read json key).getD start

def flag (json : Json) (key : String) : Read Bool := withDefault asFlag false json key

/-! ## Elements -/

def entityId (json : Json) : Read EntityId := do return ⟨← asNat json⟩

def attributeId (json : Json) : Read AttributeId := do return ⟨← asNat json⟩

def associationId (json : Json) : Read AssociationId := do return ⟨← asNat json⟩

def collectionKind : Json → Read CollectionKind
  | .string "Set" => .ok .set
  | .string "Sequence" => .ok .sequence
  | _ => .error "collection kind expected"

def typeExpr : Json → Read TypeExpr
  | .object [("Primitive", name)] => do return .primitive (← asText name)
  | .object [("Entity", id)] => do return .entity (← entityId id)
  | .object [("Collection", .object [("kind", kind), ("element", element)])] => do
    return .collection (← collectionKind kind) (← typeExpr element)
  | .object [("Collection", .object [("element", element), ("kind", kind)])] => do
    return .collection (← collectionKind kind) (← typeExpr element)
  | _ => .error "type expected"

def step : Json → Read Step
  | .object [("Attribute", id)] => do return .attribute (← attributeId id)
  | .object [("Role", id)] => do return .role (← associationId id)
  | _ => .error "step expected"

def path : Json → Read Path := asList step

def multiplicity : Json → Read Multiplicity
  | .string "One" => .ok .one
  | .string "ZeroOne" => .ok .zeroOrOne
  | .string "Many" => .ok .many
  | _ => .error "multiplicity expected"

def provenance : Json → Read Provenance
  | .string "Shared" => .ok .shared
  | .string "Source" => .ok .source
  | .string "Target" => .ok .target
  | _ => .error "provenance expected"

def entityRole : Json → Read EntityRole
  | .string "Concrete" => .ok .concrete
  | .string "Abstract" => .ok .abstract
  | .string "Interface" => .ok .interface
  | _ => .error "role expected"

def attributeFlags (json : Json) : Read AttributeFlags := do
  return { multiple := ← flag json "multiple", unique := ← flag json "unique",
           identity := ← flag json "identity", frozen := ← flag json "frozen",
           derived := ← flag json "derived", classScope := ← flag json "class_scope" }

def associationFlags (json : Json) : Read AssociationFlags := do
  return { ordered := ← flag json "ordered", sorted := ← flag json "sorted",
           frozen := ← flag json "frozen", addOnly := ← flag json "add_only",
           aggregation := ← flag json "aggregation", qualified := ← flag json "qualified" }

def operationFlags (json : Json) : Read OperationFlags := do
  return { query := ← flag json "query", isAbstract := ← flag json "is_abstract",
           isStatic := ← flag json "is_static" }

def attributeOf (json : Json) : Read Attribute := do
  return { name := ← text json "name", type := ← typeExpr (← field json "type"),
           flags := ← withDefault attributeFlags {} json "flags",
           owner := ← entityId (← field json "owner"), path := ← optional path json "path" }

def associationOf (json : Json) : Read Association := do
  return { entity1 := ← entityId (← field json "entity1"),
           entity2 := ← entityId (← field json "entity2"),
           role1 := ← optional asText json "role1", role2 := ← text json "role2",
           card1 := ← multiplicity (← field json "card1"),
           card2 := ← multiplicity (← field json "card2"),
           flags := ← withDefault associationFlags {} json "flags",
           inverse := ← optional associationId json "inverse" }

def parameterOf (json : Json) : Read Parameter := do
  return { name := ← text json "name", type := ← typeExpr (← field json "type") }

def operationOf (json : Json) : Read Operation := do
  return { name := ← text json "name", params := ← list parameterOf json "params",
           result := ← optional typeExpr json "result",
           flags := ← withDefault operationFlags {} json "flags",
           owner := ← entityId (← field json "owner") }

def invariantOf (json : Json) : Read Invariant := do
  return { antecedent := ← text json "antecedent", consequent := ← text json "consequent",
           owner := ← entityId (← field json "owner"), isLocal := ← flag json "local" }

def thesaurusEntry (json : Json) : Read Naming.ThesaurusEntry := do
  return { words := ← list asText json "words", score := ← withDefault asFloat 1.0 json "score" }

def diagnosticOf (json : Json) : Read Diagnostic := do
  let entity ← text json "entity"
  match ← text json "kind" with
  | "StructuralWarning" =>
    return .structuralWarning entity (← text json "feature") (← text json "reason")
  | "CycleDetected" => return .cycle entity (← text json "revisited")
  | "NoKeyAttribute" => return .noKeyAttribute entity
  | "UnresolvedReference" => return .unresolved entity (← text json "reference")
  | _ => .error "diagnostic expected"

end ClassModel.Exchange
