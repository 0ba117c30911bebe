import ClassModel.Proofs.Model.Effects
import Mathlib.Logic.Relation

/-! Generalization links as a graph, and what is left of it when links are cut.

A cut takes a link away at both of its ends and leaves everything else in place, so that models
after any number of cuts are described by the links that are gone.
-/

set_option autoImplicit false

namespace ClassModel

namespace Model

def Down (model : Model) (parent child : EntityId) : Prop := child ∈ model.children parent

def Reaches (model : Model) : EntityId → EntityId → Prop := Relation.ReflTransGen model.Down

def OnCycle (model : Model) (id : EntityId) : Prop := Relation.TransGen model.Down id id

/-- A parent lists exactly the entities that name it. -/
def LinksAgree (model : Model) : Prop :=
  ∀ parent child, model.Down parent child ↔ parent ∈ model.allParents child

theorem mem_allParents (model : Model) (parent child : EntityId) :
    parent ∈ model.allParents child ↔
      model.superclass child = some parent ∨ parent ∈ (model.entityAt child).parents := by
  simp [allParents, Entity.allParents, superclass, eq_comm]

theorem hasEntity_of_down {model : Model} {parent child : EntityId}
    (link : model.Down parent child) : model.HasEntity parent := by
  by_cases existing : model.HasEntity parent
  · exact existing
  · simp [Down, children, entityAt_of_not_hasEntity _ _ existing, default, Entity.named] at link

theorem hasEntity_of_mem_allParents {model : Model} {parent child : EntityId}
    (named : parent ∈ model.allParents child) : model.HasEntity child := by
  by_cases existing : model.HasEntity child
  · exact existing
  · simp [mem_allParents, superclass, entityAt_of_not_hasEntity _ _ existing, default,
      Entity.named] at named

theorem LinksAgree.hasEntity {model : Model} (agree : model.LinksAgree) {parent child : EntityId}
    (link : model.Down parent child) : model.HasEntity child :=
  hasEntity_of_mem_allParents ((agree parent child).mp link)

theorem linksAgree_iff (model : Model) : model.LinksAgree ↔
    (∀ parent ∈ model.entityIds, ∀ child ∈ model.children parent,
      parent ∈ model.allParents child) ∧
    (∀ child ∈ model.entityIds, ∀ parent ∈ model.allParents child,
      child ∈ model.children parent) := by
  constructor
  · intro agree
    exact ⟨fun parent _ child listed => (agree parent child).mp listed,
      fun child _ parent named => (agree parent child).mpr named⟩
  · intro ⟨listed, named⟩ parent child
    constructor
    · intro link
      exact listed parent ((model.mem_entityIds parent).mpr (hasEntity_of_down link)) child link
    · intro link
      exact named child ((model.mem_entityIds child).mpr (hasEntity_of_mem_allParents link)) parent
        link

instance (model : Model) : Decidable model.LinksAgree :=
  decidable_of_iff _ model.linksAgree_iff.symm

/-! ## Reachability -/

theorem reaches_iff (model : Model) (first second : EntityId) :
    model.Reaches first second ↔
      first = second ∨ ∃ child, model.Down first child ∧ model.Reaches child second :=
  Relation.ReflTransGen.cases_head_iff

theorem Reaches.mono {before after : Model}
    (fewer : ∀ parent child, after.Down parent child → before.Down parent child)
    {first second : EntityId} (reached : after.Reaches first second) :
    before.Reaches first second :=
  Relation.ReflTransGen.mono fewer _ _ reached

theorem OnCycle.mono {before after : Model}
    (fewer : ∀ parent child, after.Down parent child → before.Down parent child)
    {id : EntityId} (cycle : after.OnCycle id) : before.OnCycle id :=
  Relation.TransGen.mono fewer _ _ cycle

-- There is no cycle where every link leads to a greater number.
theorem not_transGen_of_lt {Link : EntityId → EntityId → Prop}
    (later : ∀ parent child, Link parent child → parent.index < child.index) (id : EntityId) :
    ¬ Relation.TransGen Link id id := by
  have below : ∀ upper lower, Relation.TransGen Link upper lower → upper.index < lower.index := by
    intro upper lower walk
    induction walk with
    | single link => exact later _ _ link
    | tail _ link ih => exact Nat.lt_trans ih (later _ _ link)
  exact fun cycle => Nat.lt_irrefl _ (below id id cycle)

theorem not_onCycle_of_lt {model : Model}
    (later : ∀ parent ∈ model.entityIds, ∀ child ∈ model.children parent,
      parent.index < child.index) (id : EntityId) : ¬ model.OnCycle id :=
  not_transGen_of_lt (fun parent child link =>
    later parent ((model.mem_entityIds parent).mpr (hasEntity_of_down link)) child link) id

-- Nothing is lost from sight as long as whatever a missing link led to is still in sight.
theorem Reaches.of_kept {before after : Model} {start : EntityId}
    (kept : ∀ parent child, before.Down parent child →
      after.Down parent child ∨ after.Reaches start child)
    {id : EntityId} (reached : before.Reaches start id) : after.Reaches start id := by
  induction reached with
  | refl => exact .refl
  | tail _ link ih =>
    rcases kept _ _ link with still | seen
    · exact ih.tail still
    · exact seen

-- What an entity reaches is decided by the children of the entities it reaches.
theorem Reaches.congr {before after : Model} {start : EntityId}
    (same : ∀ id, before.Reaches start id → after.children id = before.children id)
    (id : EntityId) : after.Reaches start id ↔ before.Reaches start id := by
  constructor
  · intro reached
    induction reached with
    | refl => exact .refl
    | tail _ link ih =>
      rw [Down, same _ ih] at link
      exact ih.tail link
  · intro reached
    induction reached with
    | refl => exact .refl
    | tail earlier link ih =>
      rw [Down, ← same _ earlier] at link
      exact ih.tail link

end Model

/-! ## Cutting -/

/-- The second model is the first one without some links. -/
structure Cut (links : List (EntityId × EntityId)) (before after : Model) : Prop where
  same : Model.SameButLinks before after
  children : ∀ parent, after.children parent =
    (before.children parent).filter fun child => (parent, child) ∉ links
  superclass : ∀ child, after.superclass child =
    (before.superclass child).filter fun parent => (parent, child) ∉ links
  parents : ∀ child, (after.entityAt child).parents =
    (before.entityAt child).parents.filter fun parent => (parent, child) ∉ links

namespace Cut

variable {links : List (EntityId × EntityId)} {before after : Model}

theorem nothing (model : Model) : Cut [] model model where
  same := .refl model
  children parent := (List.filter_eq_self.mpr fun _ _ => rfl).symm
  superclass child := by cases model.superclass child <;> rfl
  parents child := (List.filter_eq_self.mpr fun _ _ => rfl).symm

theorem trans {further : List (EntityId × EntityId)} {last : Model}
    (earlier : Cut links before after) (later : Cut further after last) :
    Cut (links ++ further) before last where
  same := earlier.same.trans later.same
  children parent := by
    rw [later.children, earlier.children, List.filter_filter]
    simp [Bool.and_comm]
  superclass child := by
    rw [later.superclass, earlier.superclass, Option.filter_filter]
    simp
  parents child := by
    rw [later.parents, earlier.parents, List.filter_filter]
    simp [Bool.and_comm]

theorem down_iff (gone : Cut links before after) (parent child : EntityId) :
    after.Down parent child ↔ before.Down parent child ∧ (parent, child) ∉ links := by
  simp [Model.Down, gone.children]

theorem fewer (gone : Cut links before after) (parent child : EntityId)
    (link : after.Down parent child) : before.Down parent child :=
  ((gone.down_iff parent child).mp link).1

-- Links are cut at both ends.
theorem linksAgree (gone : Cut links before after) (agree : before.LinksAgree) :
    after.LinksAgree := by
  intro parent child
  rw [gone.down_iff, agree parent child, Model.mem_allParents, Model.mem_allParents,
    gone.superclass, gone.parents]
  simp [or_and_right]

end Cut

theorem Model.children_removeGeneralization (model : Model) (parent child asked : EntityId) :
    (model.removeGeneralization parent child).children asked =
      if asked = parent then (model.children asked).filter (· != child)
      else model.children asked := by
  unfold children removeGeneralization unlistChild
  rw [part_modifyEntity Entity.children _ child asked _ (by intro _; rfl)]
  exact part_modifyEntity_altered Entity.children _ _ _ _ _ (fun _ => rfl) rfl

theorem Model.superclass_removeGeneralization (model : Model) (parent child asked : EntityId) :
    (model.removeGeneralization parent child).superclass asked =
      if asked = child then (model.superclass asked).filter (· != parent)
      else model.superclass asked := by
  have kept := part_modifyEntity Entity.superclass model parent asked
    (fun entity => { entity with children := entity.children.filter (· != child) }) fun _ => rfl
  unfold superclass
  rw [← kept]
  exact part_modifyEntity_altered Entity.superclass _ _ _ _ _ (fun _ => rfl) rfl

theorem Model.parents_removeGeneralization (model : Model) (parent child asked : EntityId) :
    ((model.removeGeneralization parent child).entityAt asked).parents =
      if asked = child then (model.entityAt asked).parents.filter (· != parent)
      else (model.entityAt asked).parents := by
  have kept := part_modifyEntity Entity.parents model parent asked
    (fun entity => { entity with children := entity.children.filter (· != child) }) fun _ => rfl
  rw [← kept]
  exact part_modifyEntity_altered Entity.parents _ _ _ _ _ (fun _ => rfl) rfl

theorem cut_removeGeneralization (model : Model) (parent child : EntityId) :
    Cut [(parent, child)] model (model.removeGeneralization parent child) where
  same := model.sameButLinks_removeGeneralization parent child
  children asked := by
    rw [model.children_removeGeneralization]
    by_cases named : asked = parent
    · rw [if_pos named]
      exact List.filter_congr fun listed _ => by simp [named, bne, Bool.beq_eq_decide_eq]
    · rw [if_neg named, List.filter_eq_self.mpr]
      simp [named]
  superclass asked := by
    rw [model.superclass_removeGeneralization]
    by_cases named : asked = child
    · simp [named, bne, Bool.beq_eq_decide_eq]
    · cases model.superclass asked <;> simp [named, Option.filter]
  parents asked := by
    rw [model.parents_removeGeneralization]
    by_cases named : asked = child
    · rw [if_pos named]
      exact List.filter_congr fun listed _ => by simp [named, bne, Bool.beq_eq_decide_eq]
    · rw [if_neg named, List.filter_eq_self.mpr]
      simp [named]

end ClassModel
