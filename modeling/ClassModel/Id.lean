/-! Identities of model elements.

Each kind of element is numbered from zero in the order of creation. Numbers are never reused.
-/

set_option autoImplicit false

namespace ClassModel

structure EntityId where
  index : Nat
  deriving DecidableEq, Hashable, Repr, Inhabited

structure AttributeId where
  index : Nat
  deriving DecidableEq, Hashable, Repr, Inhabited

structure AssociationId where
  index : Nat
  deriving DecidableEq, Hashable, Repr, Inhabited

structure OperationId where
  index : Nat
  deriving DecidableEq, Hashable, Repr, Inhabited

structure InvariantId where
  index : Nat
  deriving DecidableEq, Hashable, Repr, Inhabited

end ClassModel
