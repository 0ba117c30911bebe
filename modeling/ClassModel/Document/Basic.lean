/-! Model documents: the written form of a model, in which entities are named.

Everything but names, types and the ends of an association may be left out.
-/

set_option autoImplicit false

namespace ClassModel.Document

structure ParameterDecl where
  name : String
  type : String

structure AttributeDecl where
  name : String
  type : String
  flags : List String := []

structure OperationDecl where
  name : String
  params : List ParameterDecl := []
  result : Option String := none
  flags : List String := []

structure InvariantDecl where
  antecedent : String := "true"
  consequent : String
  isLocal : Bool := false

structure EntityDecl where
  name : String
  superclass : Option String := none
  parents : List String := []
  stereotypes : List String := []
  cardinality : Option String := none
  attributes : List AttributeDecl := []
  operations : List OperationDecl := []
  invariants : List InvariantDecl := []

structure AssociationDecl where
  entity1 : String
  entity2 : String
  role1 : Option String := none
  role2 : String
  card1 : String := "one"
  card2 : String := "one"
  flags : List String := []
  /-- The far role of the association that runs back. -/
  inverse : Option String := none

end ClassModel.Document

namespace ClassModel

structure Document where
  entities : List Document.EntityDecl := []
  associations : List Document.AssociationDecl := []

/-- Why a document cannot be loaded; the context is where the reference stands. -/
inductive DocumentError where
  | unknownEntity (context name : String)
  | invalidType (context text : String)
  | invalidMultiplicity (context text : String)
  deriving DecidableEq, Repr

def DocumentError.message : DocumentError → String
  | .unknownEntity context name => context ++ ": unknown entity '" ++ name ++ "'"
  | .invalidType context text => context ++ ": invalid type '" ++ text ++ "'"
  | .invalidMultiplicity context text => context ++ ": invalid multiplicity '" ++ text ++ "'"

end ClassModel
