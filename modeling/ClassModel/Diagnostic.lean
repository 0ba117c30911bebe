import ClassModel.Json.Basic

/-! Anomalies found in a model, and the log that collects them.

No anomaly stops an analysis. The log keeps each one once, in the order of first occurrence.
-/

set_option autoImplicit false

namespace ClassModel

inductive Diagnostic where
  /-- A feature declared again below an ancestor, or an operation declared twice. -/
  | structuralWarning (entity feature reason : String)
  /-- A walk from an entity came back to an entity it had visited. -/
  | cycle (entity revisited : String)
  /-- An entity without a primary or unique key. -/
  | noKeyAttribute (entity : String)
  | unresolved (entity reference : String)
  deriving DecidableEq, Repr

namespace Diagnostic

def kind : Diagnostic → String
  | .structuralWarning .. => "StructuralWarning"
  | .cycle .. => "CycleDetected"
  | .noKeyAttribute .. => "NoKeyAttribute"
  | .unresolved .. => "UnresolvedReference"

def entity : Diagnostic → String
  | .structuralWarning entity _ _ => entity
  | .cycle entity _ => entity
  | .noKeyAttribute entity => entity
  | .unresolved entity _ => entity

def text : Diagnostic → String
  | .structuralWarning entity feature reason => entity ++ "." ++ feature ++ ": " ++ reason
  | .cycle entity revisited =>
    "Generalization cycle: " ++ entity ++ " leads back to " ++ revisited ++ "; traversal truncated"
  | .noKeyAttribute entity => "Entity " ++ entity ++ " has no primary or unique key attribute"
  | .unresolved entity reference => entity ++ " references unresolved " ++ reference

def isCycle : Diagnostic → Bool
  | .cycle .. => true
  | _ => false

def fields : Diagnostic → List (String × String)
  | .structuralWarning entity feature reason =>
    [("entity", entity), ("feature", feature), ("reason", reason)]
  | .cycle entity revisited => [("entity", entity), ("revisited", revisited)]
  | .noKeyAttribute entity => [("entity", entity)]
  | .unresolved entity reference => [("entity", entity), ("reference", reference)]

def toJson (diagnostic : Diagnostic) : Json :=
  .object [(diagnostic.kind,
    .object (diagnostic.fields.map fun field => (field.1, .string field.2)))]

end Diagnostic

/-- A log without repeats. -/
structure Diagnostics where
  entries : List Diagnostic := []
  nodup : entries.Nodup := by simp
  deriving DecidableEq

namespace Diagnostics

def empty : Diagnostics := {}

/-- Add an entry at the end unless the log has it. -/
def push (log : Diagnostics) (diagnostic : Diagnostic) : Diagnostics :=
  if found : diagnostic ∈ log.entries then log
  else ⟨log.entries ++ [diagnostic], by
    rw [List.nodup_append]
    refine ⟨log.nodup, by simp, ?_⟩
    intro first member second last
    simp only [List.mem_singleton] at last
    subst last
    rintro rfl
    exact found member⟩

theorem entries_push (log : Diagnostics) (diagnostic : Diagnostic) :
    (log.push diagnostic).entries =
      if diagnostic ∈ log.entries then log.entries else log.entries ++ [diagnostic] := by
  unfold push
  split <;> rfl

def pushAll (log : Diagnostics) (diagnostics : List Diagnostic) : Diagnostics :=
  diagnostics.foldl push log

def extend (log other : Diagnostics) : Diagnostics := log.pushAll other.entries

def size (log : Diagnostics) : Nat := log.entries.length

def isEmpty (log : Diagnostics) : Bool := log.entries.isEmpty

def countKind (log : Diagnostics) (kind : String) : Nat :=
  log.entries.countP fun diagnostic => diagnostic.kind == kind

def cycles (log : Diagnostics) : List Diagnostic := log.entries.filter Diagnostic.isCycle

def toJson (log : Diagnostics) : Json :=
  .object [("entries", .array (log.entries.map Diagnostic.toJson))]

end Diagnostics

end ClassModel
