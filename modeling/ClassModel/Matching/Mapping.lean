import ClassModel.Attribute
import ClassModel.Fuzzy

/-! Correspondences between entities.

A mapping has at most one correspondence for each source entity. A later one takes its place only
when its score is greater.
-/

set_option autoImplicit false

namespace ClassModel

inductive MatchKind where
  /-- Taken over from the correspondence of the superclass. -/
  | inherited
  | exactNameType
  /-- The same type and the most similar name. -/
  | exactType
  /-- The same type as a feature that is two steps away. -/
  | composedType
  /-- Types related by generalization or by their elements. -/
  | partialType
  deriving DecidableEq, Repr

namespace MatchKind

def label : MatchKind → String
  | .inherited => "[Inherited]"
  | .exactNameType => "[Exact]"
  | .exactType => "[Type]"
  | .composedType => "[Composed]"
  | .partialType => "[Partial]"

def all : List MatchKind := [.inherited, .exactNameType, .exactType, .composedType, .partialType]

end MatchKind

structure FeatureMatch where
  source : Feature
  target : Feature
  kind : MatchKind
  score : Float

structure EntityMatch where
  source : EntityId
  target : EntityId
  /-- The sum of the scores of the feature matches. -/
  score : Float
  featureMatches : List FeatureMatch := []

/-- Correspondences in the order in which their sources were first recorded. -/
structure Mapping where
  entries : List EntityMatch := []

namespace Mapping

def empty : Mapping := {}

def get? (mapping : Mapping) (source : EntityId) : Option EntityMatch :=
  mapping.entries.find? (·.source == source)

def targetOf? (mapping : Mapping) (source : EntityId) : Option EntityId :=
  (mapping.get? source).map EntityMatch.target

/-- The image of an entity as a type: its target, or itself when it has none. -/
def imageOf (mapping : Mapping) (source : EntityId) : EntityId :=
  (mapping.targetOf? source).getD source

def imageContains (mapping : Mapping) (target : EntityId) : Bool :=
  mapping.entries.any (·.target == target)

/-- The entities some source is mapped to, each once. -/
def image (mapping : Mapping) : List EntityId := (mapping.entries.map EntityMatch.target).eraseDups

/-- Whether a correspondence would be stored: its source has none, or one whose score is not at
least as great. -/
def accepts (mapping : Mapping) (offered : EntityMatch) : Bool :=
  match mapping.get? offered.source with
  | some existing => !(offered.score ≤ existing.score)
  | none => true

/-- Put a correspondence in the place of the first one of its source. -/
def replaceFirst (offered : EntityMatch) : List EntityMatch → List EntityMatch
  | [] => [offered]
  | entry :: rest =>
    if entry.source = offered.source then offered :: rest
    else entry :: replaceFirst offered rest

def record (mapping : Mapping) (offered : EntityMatch) : Mapping :=
  if mapping.accepts offered then ⟨replaceFirst offered mapping.entries⟩ else mapping

/-- Record every correspondence of another mapping, in order. -/
def merge (mapping other : Mapping) : Mapping := other.entries.foldl record mapping

/-- How many correspondences change a mapping when they are recorded one after another. -/
def acceptedCount (mapping : Mapping) : List EntityMatch → Nat
  | [] => 0
  | offered :: rest =>
    (if mapping.accepts offered then 1 else 0) + (mapping.record offered).acceptedCount rest

def size (mapping : Mapping) : Nat := mapping.entries.length

def isEmpty (mapping : Mapping) : Bool := mapping.entries.isEmpty

end Mapping

end ClassModel
