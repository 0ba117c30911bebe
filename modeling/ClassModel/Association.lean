import ClassModel.TypeExpr
import ClassModel.Multiplicity

/-! Directed associations between entities. -/

set_option autoImplicit false

namespace ClassModel

structure AssociationFlags where
  ordered : Bool := false
  sorted : Bool := false
  frozen : Bool := false
  addOnly : Bool := false
  aggregation : Bool := false
  qualified : Bool := false
  deriving DecidableEq, Repr, Inhabited

/-- The flags with the one of this name set; none for an unknown name. -/
def AssociationFlags.set? (flags : AssociationFlags) (name : String) : Option AssociationFlags :=
  match Text.lowercase (Text.trim name) with
  | "ordered" => some { flags with ordered := true }
  | "sorted" => some { flags with sorted := true }
  | "frozen" | "readonly" => some { flags with frozen := true }
  | "addonly" | "add-only" => some { flags with addOnly := true }
  | "aggregation" | "composition" => some { flags with aggregation := true }
  | "qualified" => some { flags with qualified := true }
  | _ => none

/-- An association owned by its first end. `role2` names the second end as the first sees it, and
`role1` the first end as the second sees it. -/
structure Association where
  entity1 : EntityId
  entity2 : EntityId
  role1 : Option String := none
  role2 : String
  card1 : Multiplicity := .one
  card2 : Multiplicity := .one
  flags : AssociationFlags := {}
  /-- The association that stands for the same relationship in the other direction. -/
  inverse : Option AssociationId := none
  deriving DecidableEq, Repr, Inhabited

namespace Association

def isMany (association : Association) : Bool := association.card2.isMany

/-- The type of the second end read as an attribute of the first. -/
def farType (association : Association) : TypeExpr :=
  let element := TypeExpr.entity association.entity2
  if !association.isMany then element
  else if association.flags.ordered then .sequenceOf element
  else .setOf element

end Association

end ClassModel
