import ClassModel.Attribute
import ClassModel.Multiplicity

/-! Entities and their stereotypes.

A stereotype is a word that sets the role, the provenance or a capability of an entity. Any other
word is kept as a tag.
-/

set_option autoImplicit false

namespace ClassModel

inductive EntityRole where
  | concrete
  | abstract
  | interface
  deriving DecidableEq, Repr, Inhabited

/-- The side of a transformation an entity belongs to. -/
inductive Provenance where
  | shared
  | source
  | target
  deriving DecidableEq, Repr, Inhabited

/-- Whether a path from one side to another leaves the source for the target or the target for
the source. -/
def Provenance.crosses : Provenance → Provenance → Bool
  | .source, .target => true
  | .target, .source => true
  | _, _ => false

inductive Capability where
  | leaf
  | active
  | singleton
  | external
  | derived
  deriving DecidableEq, Repr

namespace Capability

def label : Capability → String
  | .leaf => "leaf"
  | .active => "active"
  | .singleton => "singleton"
  | .external => "external"
  | .derived => "derived"

def all : List Capability := [.leaf, .active, .singleton, .external, .derived]

end Capability

structure Capabilities where
  leaf : Bool := false
  active : Bool := false
  singleton : Bool := false
  external : Bool := false
  derived : Bool := false
  deriving DecidableEq, Repr, Inhabited

namespace Capabilities

def has (capabilities : Capabilities) : Capability → Bool
  | .leaf => capabilities.leaf
  | .active => capabilities.active
  | .singleton => capabilities.singleton
  | .external => capabilities.external
  | .derived => capabilities.derived

def grant (capabilities : Capabilities) : Capability → Capabilities
  | .leaf => { capabilities with leaf := true }
  | .active => { capabilities with active := true }
  | .singleton => { capabilities with singleton := true }
  | .external => { capabilities with external := true }
  | .derived => { capabilities with derived := true }

end Capabilities

inductive Stereotype where
  | role (role : EntityRole)
  | provenance (provenance : Provenance)
  | capability (capability : Capability)
  | tag (word : String)
  deriving DecidableEq, Repr

/-- The stereotype a text stands for, in any case and with blanks around it. -/
def Stereotype.ofText (text : String) : Stereotype :=
  match Text.lowercase (Text.trim text) with
  | "abstract" => .role .abstract
  | "interface" => .role .interface
  | "source" => .provenance .source
  | "target" => .provenance .target
  | "shared" => .provenance .shared
  | "leaf" => .capability .leaf
  | "active" => .capability .active
  | "singleton" => .capability .singleton
  | "external" => .capability .external
  | "derived" => .capability .derived
  | word => .tag word

/-- Features and subclasses as they were when they were last computed for an entity. Edits of the
model leave them as they are. -/
structure FeatureCache where
  localFeatures : Option (List Feature) := none
  nonlocalFeatures : Option (List Feature) := none
  leafSubclasses : Option (List EntityId) := none
  deriving DecidableEq, Repr, Inhabited

structure Entity where
  name : String
  /-- The primary parent. -/
  superclass : Option EntityId := none
  /-- Additional parents. -/
  parents : List EntityId := []
  children : List EntityId := []
  attributes : List AttributeId := []
  associations : List AssociationId := []
  operations : List OperationId := []
  invariants : List InvariantId := []
  role : EntityRole := .concrete
  provenance : Provenance := .shared
  capabilities : Capabilities := {}
  tags : List String := []
  cardinality : Option Cardinality := none
  /-- The association an association class stands for. -/
  linkedAssociation : Option AssociationId := none
  /-- The original of a flattened or target copy. -/
  copyOf : Option EntityId := none
  cache : FeatureCache := {}
  deriving DecidableEq, Repr

namespace Entity

def named (name : String) : Entity := { name }

instance : Inhabited Entity := ⟨named ""⟩

def isConcrete (entity : Entity) : Bool := entity.role == .concrete

def isLeaf (entity : Entity) : Bool := entity.children.isEmpty

/-- The primary parent before the additional ones. -/
def allParents (entity : Entity) : List EntityId := entity.superclass.toList ++ entity.parents

def apply (entity : Entity) : Stereotype → Entity
  | .role role => { entity with role }
  | .provenance provenance => { entity with provenance }
  | .capability capability =>
    { entity with capabilities := entity.capabilities.grant capability }
  | .tag word => if word ∈ entity.tags then entity else { entity with tags := entity.tags ++ [word] }

def applyStereotype (entity : Entity) (text : String) : Entity :=
  entity.apply (.ofText text)

/-- The words that give a fresh entity the same role, provenance, capabilities and tags. -/
def stereotypes (entity : Entity) : List String :=
  let role := match entity.role with
    | .concrete => []
    | .abstract => ["abstract"]
    | .interface => ["interface"]
  let provenance := match entity.provenance with
    | .shared => []
    | .source => ["source"]
    | .target => ["target"]
  role ++ provenance ++ (Capability.all.filter entity.capabilities.has).map Capability.label ++
    entity.tags

end Entity

end ClassModel
