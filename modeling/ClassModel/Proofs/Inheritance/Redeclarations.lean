import ClassModel.Proofs.Inheritance.Chain
import ClassModel.Proofs.Log

/-! What is reported when a name is declared at several entities of a chain.

The warnings are about the first entity of the chain that declares the name, one for each entity above
it that declares it as well. A name that an entity declares twice is no redeclaration, and all that is
declared is defined all the same.
-/

set_option autoImplicit false

namespace ClassModel.Model

variable (model : Model)

/-- The first entity of a chain that declares a name, and one further up that declares it again. -/
structure Redeclares (namesOf : Entity → List String) (id : EntityId) (name : String)
    (lower higher : EntityId) : Prop where
  first : (model.superclassChain id).find? (fun entity => name ∈ namesOf (model.entityAt entity)) =
    some lower
  above : [lower, higher].Sublist (model.superclassChain id)
  again : name ∈ namesOf (model.entityAt higher)

variable {model} {namesOf : Entity → List String} {id : EntityId}

theorem Redeclares.different {name : String} {lower higher : EntityId}
    (redeclared : model.Redeclares namesOf id name lower higher) : lower ≠ higher := by
  have once := (model.nodup_superclassChain id).sublist redeclared.above
  rw [List.nodup_cons, List.mem_singleton] at once
  exact once.1

/-! ## Declarations along a chain -/

end ClassModel.Model
