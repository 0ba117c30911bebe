import ClassModel.Matching.Comparison
import ClassModel.Proofs.Inheritance.Reachability
import ClassModel.Proofs.Model.References
import Mathlib.Tactic.MkIffOfInductiveProp

/-! What the comparison of two types comes to.

Only the collections around a type and what is inside all of them matter. Collections of different
kinds make related what would be equal, and nothing makes up for a different number of collections
or for an entity that is not known.
-/

set_option autoImplicit false

namespace ClassModel

namespace TypeExpr

/-- The number of collections around what is inside all of them. -/
def depth : TypeExpr → Nat
  | .collection _ element => element.depth + 1
  | _ => 0

/-- What is inside all collections. -/
def innermost : TypeExpr → TypeExpr
  | .collection _ element => element.innermost
  | type => type

end TypeExpr

/-- Every entity is unmapped or mapped to itself. -/
def Mapping.MovesNothing (mapping : Mapping) : Prop :=
  ∀ id, mapping.targetOf? id = none ∨ mapping.targetOf? id = some id

theorem Mapping.MovesNothing.imageOf {mapping : Mapping} (still : mapping.MovesNothing)
    (id : EntityId) : mapping.imageOf id = id := by
  unfold Mapping.imageOf
  rcases still id with unmapped | itself
  · rw [unmapped, Option.getD_none]
  · rw [itself, Option.getD_some]

namespace Comparison

/-! ## Either order -/

section

variable {comparison : Comparison} (still : comparison.mapping.MovesNothing)

include still

theorem entityMatch_swap (source target : EntityId) :
    comparison.entityMatch source target = comparison.entityMatch target source := by
  by_cases same : source = target
  · rw [same]
  · unfold entityMatch
    simp only [still.imageOf, same, Ne.symm same, decide_false, Bool.or_self]
    rw [Bool.or_comm (!comparison.known.contains source),
      Bool.or_comm (comparison.model.isAncestor source target)]

theorem typeMatch_swap (source target : TypeExpr) :
    comparison.typeMatch source target = comparison.typeMatch target source := by
  induction source generalizing target with
  | primitive name => cases target <;> simp [typeMatch, eq_comm]
  | entity id =>
    cases target with
    | entity other => exact entityMatch_swap still id other
    | primitive | collection => rfl
  | collection kind element ih =>
    cases target with
    | collection otherKind other =>
      unfold typeMatch
      rw [ih other]
      simp only [eq_comm (a := kind)]
    | primitive | entity => rfl

end

/-! ## The closed form -/

variable (comparison : Comparison)

/-- What two types have inside when they compare: the same primitive type, or known entities of which
the second is the first, or its image, or an ancestor or a descendant of its image. -/
inductive Meets : TypeExpr → TypeExpr → Prop where
  | primitive (name : String) : Meets (.primitive name) (.primitive name)
  | entities {source target : EntityId} : source ∈ comparison.known → target ∈ comparison.known →
      (target = source ∨ target = comparison.mapping.imageOf source ∨
        comparison.model.IsAbove (comparison.mapping.imageOf source) target ∨
        comparison.model.IsAbove target (comparison.mapping.imageOf source)) →
      Meets (.entity source) (.entity target)

/-- Two types that refer to known entities only and are equal, as they are or with the image of the
entity in the place of the entity. -/
@[mk_iff] structure Agrees (source target : TypeExpr) : Prop where
  sourceKnown : ∀ id ∈ source.leaf?, id ∈ comparison.known
  targetKnown : ∀ id ∈ target.leaf?, id ∈ comparison.known
  same : source = target ∨ source.mapEntities comparison.mapping.imageOf = target

/-- Two types in equally many collections, of whatever kinds, that meet inside. -/
@[mk_iff] structure Resembles (source target : TypeExpr) : Prop where
  depth : source.depth = target.depth
  innermost : comparison.Meets source.innermost target.innermost

/-! ## Entities -/

variable (source target : EntityId)

theorem entityMatch_eq_exact_iff : comparison.entityMatch source target = .exact ↔
    comparison.Agrees (.entity source) (.entity target) := by
  simp only [agrees_iff, TypeExpr.leaf?, TypeExpr.mapEntities, Option.mem_some_iff, forall_eq',
    TypeExpr.entity.injEq]
  unfold entityMatch
  grind

theorem meets_primitive_iff (source target : String) :
    comparison.Meets (.primitive source) (.primitive target) ↔ source = target := by
  constructor
  · rintro ⟨⟩
    rfl
  · rintro rfl
    exact .primitive source

theorem meets_entity_iff : comparison.Meets (.entity source) (.entity target) ↔
    source ∈ comparison.known ∧ target ∈ comparison.known ∧
      (target = source ∨ target = comparison.mapping.imageOf source ∨
        comparison.model.IsAbove (comparison.mapping.imageOf source) target ∨
        comparison.model.IsAbove target (comparison.mapping.imageOf source)) := by
  constructor
  · rintro (_ | ⟨sourceKnown, targetKnown, meet⟩)
    exact ⟨sourceKnown, targetKnown, meet⟩
  · rintro ⟨sourceKnown, targetKnown, meet⟩
    exact .entities sourceKnown targetKnown meet

theorem entityMatch_eq_different_iff : comparison.entityMatch source target = .different ↔
    ¬ comparison.Meets (.entity source) (.entity target) := by
  rw [meets_entity_iff, ← Model.isAncestor_iff_isAbove, ← Model.isAncestor_iff_isAbove]
  unfold entityMatch
  grind

/-! ## Collections -/

variable (sourceKind targetKind : CollectionKind) {source target : TypeExpr}

theorem typeMatch_collection_eq_exact_iff :
    comparison.typeMatch (.collection sourceKind source) (.collection targetKind target) = .exact ↔
      sourceKind = targetKind ∧ comparison.typeMatch source target = .exact := by
  rw [typeMatch]
  cases comparison.typeMatch source target <;> by_cases kinds : sourceKind = targetKind <;>
    simp [kinds]

theorem typeMatch_collection_eq_different_iff :
    comparison.typeMatch (.collection sourceKind source) (.collection targetKind target) =
      .different ↔ comparison.typeMatch source target = .different := by
  rw [typeMatch]
  cases comparison.typeMatch source target <;> by_cases kinds : sourceKind = targetKind <;>
    simp [kinds]

theorem agrees_collection_iff :
    comparison.Agrees (.collection sourceKind source) (.collection targetKind target) ↔
      sourceKind = targetKind ∧ comparison.Agrees source target := by
  simp only [agrees_iff, TypeExpr.leaf?, TypeExpr.mapEntities, TypeExpr.collection.injEq]
  grind

theorem resembles_collection_iff :
    comparison.Resembles (.collection sourceKind source) (.collection targetKind target) ↔
      comparison.Resembles source target := by
  simp only [resembles_iff, TypeExpr.depth, TypeExpr.innermost, Nat.add_right_cancel_iff]

/-! ## Types -/

theorem typeMatch_eq_exact_iff (source target : TypeExpr) :
    comparison.typeMatch source target = .exact ↔ comparison.Agrees source target := by
  induction source generalizing target with
  | primitive name =>
    cases target <;> simp [typeMatch, agrees_iff, TypeExpr.leaf?, TypeExpr.mapEntities]
  | entity id =>
    cases target with
    | entity other => exact comparison.entityMatch_eq_exact_iff id other
    | primitive | collection => simp [typeMatch, agrees_iff, TypeExpr.mapEntities]
  | collection kind element ih =>
    cases target with
    | collection otherKind other =>
      rw [typeMatch_collection_eq_exact_iff, agrees_collection_iff, ih]
    | primitive | entity => simp [typeMatch, agrees_iff, TypeExpr.mapEntities]

theorem typeMatch_self {comparison : Comparison} {type : TypeExpr}
    (known : ∀ id ∈ type.leaf?, id ∈ comparison.known) :
    comparison.typeMatch type type = .exact :=
  (comparison.typeMatch_eq_exact_iff type type).mpr ⟨known, known, .inl rfl⟩

theorem typeMatch_eq_different_iff (source target : TypeExpr) :
    comparison.typeMatch source target = .different ↔ ¬ comparison.Resembles source target := by
  induction source generalizing target with
  | primitive name =>
    cases target with
    | primitive other =>
      have resembles : comparison.Resembles (.primitive name) (.primitive other) ↔
          comparison.Meets (.primitive name) (.primitive other) :=
        ⟨fun alike => alike.innermost, fun meet => ⟨rfl, meet⟩⟩
      rw [resembles, meets_primitive_iff]
      simp [typeMatch]
    | entity other => exact iff_of_true rfl fun alike => by cases alike.innermost
    | collection otherKind other => exact iff_of_true rfl fun alike => by cases alike.depth
  | entity id =>
    cases target with
    | entity other =>
      have resembles : comparison.Resembles (.entity id) (.entity other) ↔
          comparison.Meets (.entity id) (.entity other) :=
        ⟨fun alike => alike.innermost, fun meet => ⟨rfl, meet⟩⟩
      rw [resembles, typeMatch, entityMatch_eq_different_iff]
    | primitive name => exact iff_of_true rfl fun alike => by cases alike.innermost
    | collection otherKind other => exact iff_of_true rfl fun alike => by cases alike.depth
  | collection kind element ih =>
    cases target with
    | collection otherKind other =>
      rw [typeMatch_collection_eq_different_iff, resembles_collection_iff, ih]
    | primitive | entity => exact iff_of_true rfl fun alike => by cases alike.depth

/-- How two types compare: exactly when they agree, as related ones when they do not and resemble each
other all the same, and as different ones otherwise. Without correspondences it does not matter which
of them comes first. -/
theorem typeMatch_closedForm (source target : TypeExpr) :
    (comparison.typeMatch source target = .exact ↔ comparison.Agrees source target) ∧
    (comparison.typeMatch source target = .related ↔
      ¬ comparison.Agrees source target ∧ comparison.Resembles source target) ∧
    (comparison.typeMatch source target = .different ↔
      ¬ comparison.Agrees source target ∧ ¬ comparison.Resembles source target) ∧
    { comparison with mapping := .empty }.typeMatch source target =
      { comparison with mapping := .empty }.typeMatch target source := by
  have exact := comparison.typeMatch_eq_exact_iff source target
  have different := comparison.typeMatch_eq_different_iff source target
  have swapped := @typeMatch_swap { comparison with mapping := .empty } (fun _ => .inl rfl) source
    target
  refine ⟨exact, ?_, ?_, swapped⟩
  · rw [← exact, ← not_not (a := comparison.Resembles _ _), ← different]
    cases comparison.typeMatch source target <;> simp
  · rw [← exact, ← different]
    cases comparison.typeMatch source target <;> simp

end Comparison

end ClassModel
