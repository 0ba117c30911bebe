import ClassModel.Copies.Relabelling
import ClassModel.Features.Paths

/-! Flattened and target copies.

A flattened copy has everything that can be reached from its original as attributes of its own. A
target copy is a placeholder with the direct attributes of its original.
-/

set_option autoImplicit false

namespace ClassModel

def Attribute.ofFeature (feature : Feature) : Attribute :=
  { name := feature.name
    type := feature.type
    flags := feature.flags
    owner := feature.owner
    path := some feature.path }

def firstOfEachName : List Attribute → List Attribute
  | [] => []
  | first :: rest => first :: (firstOfEachName rest).filter fun later => later.name != first.name

theorem mem_of_mem_firstOfEachName {attributes : List Attribute} {found : Attribute}
    (member : found ∈ firstOfEachName attributes) : found ∈ attributes := by
  induction attributes with
  | nil => exact member
  | cons first rest ih =>
    rcases List.mem_cons.mp member with rfl | later
    · exact List.mem_cons_self
    · exact List.mem_cons_of_mem _ (ih (List.mem_filter.mp later).1)

theorem nodup_names_firstOfEachName (attributes : List Attribute) :
    ((firstOfEachName attributes).map Attribute.name).Nodup := by
  induction attributes with
  | nil => simp [firstOfEachName]
  | cons first rest ih =>
    simp only [firstOfEachName, List.map_cons, List.nodup_cons]
    refine ⟨by simp, ?_⟩
    exact ih.sublist (List.filter_sublist.map _)

namespace Model

/-- The features of an entity as attributes: its defined attributes, the far ends of the defined
associations that do not cross the boundary, and the longer paths. -/
def reachableAttributes (model : Model) (policy : PathPolicy) (id : EntityId) (depth : Nat) :
    List Attribute :=
  (model.definedAttributes id).map model.attributeAt ++
    ((model.definedAssociations id).filter fun role => !model.crossesBoundary id role).map
      (fun role => .ofFeature (model.roleFeature role)) ++
    ((model.composedPaths policy id [] depth).filter (2 ≤ ·.length)).map
      (fun path => .ofFeature (model.pathFeature id path))

/-- The attributes of a flattened copy: of the reachable ones, the first of every name. -/
def flattenedAttributes (model : Model) (policy : PathPolicy) (id : EntityId) (depth : Nat) :
    List Attribute :=
  firstOfEachName (model.reachableAttributes policy id depth)

def insertWithAttributes (model : Model) (entity : Entity) (attributes : List Attribute) : Model :=
  attributes.foldl (attachAttribute · model.nextEntity) (model.insertEntity entity)

/-- The model with a flattened copy of an entity; the copy is the next entity. -/
def flattenedCopy (model : Model) (policy : PathPolicy) (id : EntityId) (depth : Nat) :
    Noted Model := do
  let attributes ← Noted.of (model.flattenedAttributes policy id depth)
    (model.attributeFindings id ++ model.associationFindings id ++
      model.composedFindings policy id [] depth)
  Noted.say (.flattenedEntity (model.name id) policy.label depth attributes.length)
  return model.insertWithAttributes ((model.entityAt id).blankCopy id) attributes

/-- The model with a target copy of an entity, which is no longer on the source side; the copy is
the next entity. -/
def targetCopy (model : Model) (id : EntityId) : Model :=
  let copy := (model.entityAt id).blankCopy id
  model.insertWithAttributes
    { copy with provenance := if copy.provenance = .source then .shared else copy.provenance }
    ((model.entityAt id).attributes.map model.attributeAt)

structure Copying where
  model : Model
  copies : EntityCopies := []

def copyEach (copy : Model → EntityId → Noted Model) (model : Model) (order : List EntityId) :
    Noted Copying :=
  order.foldlM (fun state original => do
    let copied ← copy state.model original
    return ⟨copied, state.copies.insert original state.model.nextEntity⟩) { model }

/-- Flattened copies of entities, superclasses first, with their generalization links. -/
def flattenModel (model : Model) (entities : List EntityId) (policy : PathPolicy) (depth : Nat) :
    Noted Copying := do
  let order ← Noted.of (model.superclassFirstOrder entities) (model.orderFindings entities)
  let copying ← copyEach (fun model id => model.flattenedCopy policy id depth) model order
  let linked ← copying.model.copyInheritances copying.copies
  Noted.say (.flattenedModel copying.copies.length)
  return ⟨linked, copying.copies⟩

/-- Target copies of entities, with their generalization links and associations. -/
def targetSchema (model : Model) (entities : List EntityId) : Noted Copying := do
  let order ← Noted.of (model.superclassFirstOrder entities) (model.orderFindings entities)
  let copying ← copyEach (fun model id => pure (model.targetCopy id)) model order
  let linked ← copying.model.copyInheritances copying.copies
  let (target, associations) ← linked.copyToTarget copying.copies
  Noted.say (.targetSchema copying.copies.length associations)
  return ⟨target, copying.copies⟩

end Model

end ClassModel
