import ClassModel.TypeExpr

/-! Operations and invariants of entities. -/

set_option autoImplicit false

namespace ClassModel

structure Parameter where
  name : String
  type : TypeExpr
  deriving DecidableEq, Repr, Inhabited

structure OperationFlags where
  query : Bool := false
  isAbstract : Bool := false
  isStatic : Bool := false
  deriving DecidableEq, Repr, Inhabited

structure Operation where
  name : String
  params : List Parameter := []
  result : Option TypeExpr := none
  flags : OperationFlags := {}
  owner : EntityId
  deriving DecidableEq, Repr, Inhabited

/-- The name and the types of the parameters, in order. -/
def Operation.signature (operation : Operation) : String × List TypeExpr :=
  (operation.name, operation.params.map Parameter.type)

def Operation.sameSignature (first second : Operation) : Bool :=
  first.signature == second.signature

/-- A rule: when the antecedent holds, so does the consequent. -/
structure Invariant where
  antecedent : String
  consequent : String
  owner : EntityId
  isLocal : Bool
  deriving DecidableEq, Repr, Inhabited

end ClassModel
