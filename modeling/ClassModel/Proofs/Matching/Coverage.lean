import ClassModel.Matching.Engine
import ClassModel.Model.Script
import ClassModel.Proofs.Matching.Recording
import ClassModel.Proofs.Matching.Types
import ClassModel.Proofs.Naming.Symmetry

/-! Coverage of two entities, from either side.

Where a mapping moves no entity, features compare alike in both directions. So an entity is covered
as a target as well as it is covered as a source.
-/

set_option autoImplicit false

namespace ClassModel

theorem Model.movesNothing_identityMapping (model : Model) (entities : List EntityId) :
    (model.identityMapping entities).MovesNothing := by
  have alike : ∀ entry ∈ (model.identityMapping entities).entries,
      entry.target = entry.source := by
    refine List.foldlRecOn (motive := fun mapping : Mapping =>
      ∀ entry ∈ mapping.entries, entry.target = entry.source) _ _ nofun ?_
    intro mapping soFar offered member entry recorded
    obtain ⟨id, _, rfl⟩ := List.mem_map.mp member
    rcases Mapping.mem_record recorded with rfl | earlier
    · rfl
    · exact soFar entry earlier
  intro id
  cases found : (model.identityMapping entities).get? id with
  | none => exact .inl (by rw [Mapping.targetOf?, found, Option.map_none])
  | some entry =>
    have itself := (alike entry (Mapping.mem_of_get? found)).trans (Mapping.source_of_get? found)
    exact .inr (by rw [Mapping.targetOf?, found, Option.map_some, itself])

namespace Comparison

variable {comparison : Comparison} (still : comparison.mapping.MovesNothing)

include still

theorem featureSimilarity_swap (source target : Feature) :
    comparison.featureSimilarity source target = comparison.featureSimilarity target source := by
  unfold featureSimilarity nameSimilarity
  rw [typeMatch_swap still, Naming.nameSimilarity_swap]

end Comparison

/-- Under a mapping that moves nothing, an entity is covered as a target by another one as it is
covered by it as a source. -/
theorem Engine.targetCoverage_swap (engine : Engine) {mapping : Mapping}
    (still : mapping.MovesNothing) (first second : EntityId) :
    (engine.targetCoverage mapping first second).value =
      (engine.sourceCoverage mapping second first).value := by
  have alike : ∀ source target, (engine.comparison mapping).featureSimilarity source target =
      (engine.comparison mapping).featureSimilarity target source :=
    @Comparison.featureSimilarity_swap (engine.comparison mapping) still
  refine congrArg Fuzzy.softAndAll (List.map_congr_left fun target _ => ?_)
  exact congrArg Fuzzy.softOrAll (List.map_congr_left fun source _ => alike source target)

/-- An order with a set of customers and a total, and an invoice with a list of parties, of which
customers are a kind. -/
def orders : Engine where
  model := [Edit.insertEntity (.named "Order"), .insertEntity (.named "Invoice"),
    .insertEntity (.named "Customer"), .insertEntity (.named "Party"),
    .setSuperclass ⟨2⟩ (some ⟨3⟩),
    .attachAttribute ⟨0⟩ { name := "customers", type := .setOf (.entity ⟨2⟩), owner := ⟨0⟩ },
    .attachAttribute ⟨0⟩ { name := "total", type := .primitive "double", owner := ⟨0⟩ },
    .attachAttribute ⟨1⟩ { name := "customer", type := .sequenceOf (.entity ⟨3⟩),
                           owner := ⟨1⟩ }].foldl Edit.apply .empty
  known := [⟨0⟩, ⟨1⟩, ⟨2⟩, ⟨3⟩]

def customersKept : Mapping := orders.model.identityMapping [⟨2⟩]

/-- The customers of the invoice are covered by those of the order, and the total is not covered. -/
theorem targetCoverage_orders :
    customersKept.MovesNothing ∧ customersKept.targetOf? ⟨2⟩ = some ⟨2⟩ ∧
      0.25 < (orders.targetCoverage customersKept ⟨0⟩ ⟨1⟩).value ∧
      (orders.sourceCoverage customersKept ⟨0⟩ ⟨1⟩).value < 0.25 ∧
      (orders.targetCoverage customersKept ⟨0⟩ ⟨1⟩).value =
        (orders.sourceCoverage customersKept ⟨1⟩ ⟨0⟩).value := by
  have still : customersKept.MovesNothing := orders.model.movesNothing_identityMapping [⟨2⟩]
  exact ⟨still, by decide +kernel, by decide +kernel, by decide +kernel,
    orders.targetCoverage_swap still ⟨0⟩ ⟨1⟩⟩

end ClassModel
