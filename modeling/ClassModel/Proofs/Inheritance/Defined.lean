import ClassModel.Inheritance.Defined
import ClassModel.Proofs.Model.FeatureLists

/-! The features defined for an entity, each once.

A chain has no repeats, and no feature is in the lists of two entities.
-/

set_option autoImplicit false

namespace ClassModel.Model

theorem nodup_entityIds (model : Model) : model.entityIds.Nodup :=
  List.Nodup.map (fun _ _ same => by cases same; rfl) List.nodup_range

theorem mem_of_mem_chainThrough (model : Model) (remaining : List EntityId) (id : EntityId)
    {member : EntityId} (inside : member ∈ model.chainThrough remaining id) :
    member = id ∨ member ∈ remaining := by
  fun_induction chainThrough model remaining id with
  | case1 => exact .inl (List.mem_singleton.mp inside)
  | case2 remaining id parent _ fresh ih =>
    rcases List.mem_cons.mp inside with here | further
    · exact .inl here
    · rcases ih further with rfl | later
      · exact .inr fresh
      · exact .inr (List.mem_of_mem_erase later)
  | case3 => exact .inl (List.mem_singleton.mp inside)

theorem nodup_chainThrough (model : Model) (remaining : List EntityId) (id : EntityId)
    (distinct : remaining.Nodup) (passed : id ∉ remaining) :
    (model.chainThrough remaining id).Nodup := by
  fun_induction chainThrough model remaining id with
  | case1 => exact List.nodup_singleton _
  | case2 remaining id parent _ fresh ih =>
    have gone : parent ∉ remaining.erase parent := distinct.not_mem_erase
    refine List.nodup_cons.mpr ⟨fun again => ?_, ih (distinct.erase parent) gone⟩
    rcases mem_of_mem_chainThrough _ _ _ again with rfl | later
    · exact passed fresh
    · exact passed (List.mem_of_mem_erase later)
  | case3 => exact List.nodup_singleton _

theorem nodup_superclassChain (model : Model) (id : EntityId) :
    (model.superclassChain id).Nodup :=
  model.nodup_chainThrough _ id (model.nodup_entityIds.erase id) model.nodup_entityIds.not_mem_erase

theorem superclassChain_of_free {model : Model} {id : EntityId} (free : model.superclass id = none) :
    model.superclassChain id = [id] := by
  unfold superclassChain chainThrough
  rw [free]

theorem nodup_flatMap_of_apart {Id : Type} (listOf : EntityId → List Id)
    (once : ∀ entity, (listOf entity).Nodup)
    (apart : ∀ first second, ∀ id ∈ listOf first, id ∈ listOf second → first = second)
    {chain : List EntityId} (distinct : chain.Nodup) : (chain.flatMap listOf).Nodup := by
  rw [List.nodup_flatMap]
  refine ⟨fun entity _ => once entity, distinct.imp ?_⟩
  intro first second different id one other
  exact different (apart first second id one other)

theorem ListsApart.nodup_definedAttributes {model : Model} (sound : ListsApart model)
    (id : EntityId) : (model.definedAttributes id).Nodup := by
  refine nodup_flatMap_of_apart _ (fun entity => ?_) (fun first second declared one other => ?_)
    (model.nodup_superclassChain id)
  · exact (sound.once .attributes entity).of_map
  · exact sound.apart .attributes first second _ (List.mem_map_of_mem one)
      (List.mem_map_of_mem other)

theorem ListsApart.nodup_definedAssociations {model : Model} (sound : ListsApart model)
    (id : EntityId) : (model.definedAssociations id).Nodup := by
  refine nodup_flatMap_of_apart _ (fun entity => ?_) (fun first second role one other => ?_)
    (model.nodup_superclassChain id)
  · exact (sound.once .associations entity).of_map
  · exact sound.apart .associations first second _ (List.mem_map_of_mem one)
      (List.mem_map_of_mem other)

end ClassModel.Model
