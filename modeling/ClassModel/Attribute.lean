import ClassModel.TypeExpr
import ClassModel.Text.Lowercase

/-! Attributes, and the steps and paths that lead to features.

A path is a sequence of steps, each through an attribute or through the far role of an
association. A path of one step is a feature of its own entity; a longer one is composed.
-/

set_option autoImplicit false

namespace ClassModel

inductive Step where
  | attribute (id : AttributeId)
  | role (id : AssociationId)
  deriving DecidableEq, Hashable, Repr

def Step.role? : Step → Option AssociationId
  | .role id => some id
  | .attribute _ => none

abbrev Path := List Step

namespace Path

def roles (path : Path) : List AssociationId := path.filterMap Step.role?

def firstRole? (path : Path) : Option AssociationId := path.head?.bind Step.role?

end Path

structure AttributeFlags where
  multiple : Bool := false
  unique : Bool := false
  identity : Bool := false
  frozen : Bool := false
  derived : Bool := false
  classScope : Bool := false
  deriving DecidableEq, Repr, Inhabited

/-- The flags with the one of this name set; none for an unknown name. An identity is unique. -/
def AttributeFlags.set? (flags : AttributeFlags) (name : String) : Option AttributeFlags :=
  match Text.lowercase (Text.trim name) with
  | "multiple" => some { flags with multiple := true }
  | "unique" => some { flags with unique := true }
  | "identity" | "key" => some { flags with identity := true, unique := true }
  | "frozen" | "readonly" => some { flags with frozen := true }
  | "derived" => some { flags with derived := true }
  | "static" | "class" | "class-scope" => some { flags with classScope := true }
  | _ => none

/-- A declared attribute, or one that stands for an association end or a path. -/
structure Attribute where
  name : String
  type : TypeExpr
  flags : AttributeFlags := {}
  /-- The declaring entity; in a flattened view, the declaring entity of the original. -/
  owner : EntityId
  path : Option Path := none
  deriving DecidableEq, Repr, Inhabited

/-- What is compared between entities: an attribute, an association end or a path. -/
structure Feature where
  name : String
  type : TypeExpr
  owner : EntityId
  flags : AttributeFlags := {}
  path : Path
  deriving DecidableEq, Repr, Inhabited

namespace Feature

def isComposed (feature : Feature) : Bool := 1 < feature.path.length

/-- The number of associations passed before the last step. -/
def hops (feature : Feature) : Nat := feature.path.length - 1

def firstRole? (feature : Feature) : Option AssociationId := feature.path.firstRole?

end Feature

end ClassModel
