import ClassModel.Proofs.Inheritance.Precedence
import ClassModel.Proofs.Log

/-! Superclasses before subclasses: who is reported, and where those that are reported come.

Whoever cannot be placed is reported as a cycle and comes last, as given. That concerns the members
of a cycle and everybody below them.
-/

set_option autoImplicit false

namespace ClassModel

/-- Whether a log has a cycle about an entity of a name. -/
def Diagnostics.ReportsCycle (log : Diagnostics) (name : String) : Prop :=
  ∃ revisited, .cycle name revisited ∈ log.entries

namespace Model

/-- No two entities have one name. -/
def NamesDistinct (model : Model) : Prop := (model.entityIds.map model.name).Nodup

instance (model : Model) : Decidable model.NamesDistinct :=
  inferInstanceAs (Decidable (List.Nodup _))

theorem NamesDistinct.eq_of_name {model : Model} (distinct : model.NamesDistinct)
    {first second : EntityId} (firstExists : model.HasEntity first)
    (secondExists : model.HasEntity second) (same : model.name first = model.name second) :
    first = second :=
  List.inj_on_of_nodup_map distinct ((model.mem_entityIds first).mpr firstExists)
    ((model.mem_entityIds second).mpr secondExists) same

variable {model : Model} {members : List EntityId}

/-- What is reported of cycles among the given entities, and where the order has the entities that are
reported. -/
structure CyclesReported (model : Model) (members order : List EntityId) (log : Diagnostics) :
    Prop where
  /-- Everybody on a cycle or below one is reported, and nobody else. -/
  reported : ∀ id, model.HasEntity id →
    (log.ReportsCycle (model.name id) ↔ model.BelowCycle members id)
  behindParents : ∀ parent child, model.LinkAmong members parent child →
    ¬ model.BelowCycle members child → order.idxOf parent < order.idxOf child
  /-- Those below a cycle are behind the parents that are not, and otherwise stay as given. -/
  heldBack : ∀ parent child, model.LinkAmong members parent child →
    model.BelowCycle members child → (order.idxOf parent < order.idxOf child ↔
      (model.BelowCycle members parent → members.idxOf parent < members.idxOf child))
  /-- So the reports tell who is on a cycle if nobody is merely below one. -/
  exact : (∀ id, model.HasEntity id → (log.ReportsCycle (model.name id) ↔
      Relation.TransGen (model.LinkAmong members) id id)) ↔
    ∀ id, model.BelowCycle members id → Relation.TransGen (model.LinkAmong members) id id

section

variable (agree : model.LinksAgree)

include agree

theorem BelowCycle.hasEntity {id : EntityId} (below : model.BelowCycle members id) :
    model.HasEntity id := by
  obtain ⟨parent, link⟩ := below.exists_link
  exact agree.hasEntity ((agree parent id).mpr link.named)

theorem reportsCycle_iff (distinct : model.NamesDistinct) (once : members.Nodup) {id : EntityId}
    (existing : model.HasEntity id) :
    (Diagnostics.empty.pushAll (model.orderFindings members)).ReportsCycle (model.name id) ↔
      model.BelowCycle members id := by
  have logged : ∀ found, found ∈
      (Diagnostics.empty.pushAll (model.orderFindings members)).entries ↔
        ∃ other ∈ model.unplaceable members,
          .cycle (model.name other) (model.name ((model.superclass other).getD other)) = found := by
    intro found
    rw [Diagnostics.mem_pushAll, orderFindings, List.mem_map]
    exact or_iff_right List.not_mem_nil
  constructor
  · rintro ⟨revisited, entry⟩
    obtain ⟨other, waits, same⟩ := (logged _).mp entry
    obtain ⟨_, below⟩ := (mem_unplaceable agree once).mp waits
    have sameName : model.name other = model.name id := (Diagnostic.cycle.inj same).1
    rwa [← distinct.eq_of_name (below.hasEntity agree) existing sameName]
  · intro below
    obtain ⟨_, link⟩ := below.exists_link
    have waits := (mem_unplaceable agree once).mpr ⟨link.childGiven, below⟩
    exact ⟨_, (logged _).mpr ⟨id, waits, rfl⟩⟩

theorem not_mem_placeable (once : members.Nodup) {id : EntityId}
    (below : model.BelowCycle members id) : id ∉ model.placeable members :=
  fun placed => not_belowCycle_of_placed agree once placed below

theorem idxOf_superclassFirstOrder_lt_iff (once : members.Nodup) {parent child : EntityId}
    (link : model.LinkAmong members parent child) (childBelow : model.BelowCycle members child) :
    (model.superclassFirstOrder members).idxOf parent <
      (model.superclassFirstOrder members).idxOf child ↔
        (model.BelowCycle members parent → members.idxOf parent < members.idxOf child) := by
  have childWaits := (mem_unplaceable agree once).mpr ⟨link.childGiven, childBelow⟩
  rw [superclassFirstOrder, List.idxOf_append_of_notMem (not_mem_placeable agree once childBelow)]
  by_cases parentBelow : model.BelowCycle members parent
  · have parentWaits := (mem_unplaceable agree once).mpr ⟨link.parentGiven, parentBelow⟩
    have asGiven : (model.unplaceable members).Sublist members := by
      rw [unplaceable, eraseDups_eq_self once]
      exact List.filter_sublist
    rw [List.idxOf_append_of_notMem (not_mem_placeable agree once parentBelow),
      Nat.add_lt_add_iff_left, idxOf_lt_iff_of_sublist once asGiven childWaits parentWaits]
    simp [parentBelow]
  · have parentPlaced := mem_placeable_of_free agree link.parentGiven parentBelow
    rw [List.idxOf_append_of_mem parentPlaced]
    have inFront := List.idxOf_lt_length_iff.mpr parentPlaced
    exact iff_of_true (Nat.lt_of_lt_of_le inFront (Nat.le_add_right _ _))
      fun below => absurd below parentBelow

end

/-- With distinct names, the entities reported are those on a cycle among the given ones or below it.
They alone may come before a parent, and do so where they were given before it. -/
theorem LinksAgree.superclassFirstOrder_reports (agree : model.LinksAgree)
    (distinct : model.NamesDistinct) (once : members.Nodup) :
    model.CyclesReported members (model.superclassFirstOrder members)
      (Diagnostics.empty.pushAll (model.orderFindings members)) := by
  have reported := fun id (existing : model.HasEntity id) =>
    reportsCycle_iff agree distinct once existing
  refine ⟨reported, fun parent child => idxOf_superclassFirstOrder_lt agree once,
    fun parent child => idxOf_superclassFirstOrder_lt_iff agree once, ?_, ?_⟩
  · intro told id below
    have existing := below.hasEntity agree
    exact (told id existing).mp ((reported id existing).mpr below)
  · intro onlyCycles id existing
    exact (reported id existing).trans ⟨onlyCycles id, fun cycle => ⟨id, cycle, .refl⟩⟩

/-- Hens and eggs are each other's superclass, and chicks have both of them as parents. -/
def brood : Model :=
  [Edit.insertEntity (.named "Chick"), .insertEntity (.named "Hen"), .insertEntity (.named "Egg"),
    .setSuperclass ⟨1⟩ (some ⟨2⟩), .setSuperclass ⟨2⟩ (some ⟨1⟩), .setSuperclass ⟨0⟩ (some ⟨1⟩),
    .addParent ⟨0⟩ ⟨2⟩].foldl Edit.apply .empty

theorem superclassFirstOrder_reports_brood :
    brood.LinksAgree ∧ brood.NamesDistinct ∧ [EntityId.mk 0, ⟨1⟩, ⟨2⟩].Nodup ∧
      (Diagnostics.empty.pushAll (brood.orderFindings [⟨0⟩, ⟨1⟩, ⟨2⟩])).ReportsCycle "Chick" ∧
      brood.BelowCycle [⟨0⟩, ⟨1⟩, ⟨2⟩] ⟨0⟩ := by
  have agree : brood.LinksAgree := by decide +kernel
  have distinct : brood.NamesDistinct := by decide +kernel
  have once : [EntityId.mk 0, ⟨1⟩, ⟨2⟩].Nodup := by decide
  have reported : (Diagnostics.empty.pushAll
      (brood.orderFindings [⟨0⟩, ⟨1⟩, ⟨2⟩])).ReportsCycle "Chick" := ⟨"Hen", by decide +kernel⟩
  exact ⟨agree, distinct, once, reported,
    ((agree.superclassFirstOrder_reports distinct once).reported ⟨0⟩ (by decide)).mp reported⟩

/-- Chicks are on no cycle, but they are reported, and come before their parents. -/
theorem brood_chicks_reported :
    brood.LinksAgree ∧ brood.NamesDistinct ∧ [EntityId.mk 0, ⟨1⟩, ⟨2⟩].Nodup ∧
      ¬ Relation.TransGen (brood.LinkAmong [⟨0⟩, ⟨1⟩, ⟨2⟩]) ⟨0⟩ ⟨0⟩ ∧
      (Diagnostics.empty.pushAll (brood.orderFindings [⟨0⟩, ⟨1⟩, ⟨2⟩])).ReportsCycle "Chick" ∧
      brood.LinkAmong [⟨0⟩, ⟨1⟩, ⟨2⟩] ⟨1⟩ ⟨0⟩ ∧
      brood.superclassFirstOrder [⟨0⟩, ⟨1⟩, ⟨2⟩] = [⟨0⟩, ⟨1⟩, ⟨2⟩] := by
  refine ⟨by decide +kernel, by decide +kernel, by decide, fun cycle => ?_, ⟨"Hen", by decide +kernel⟩,
    ⟨by decide, by decide, by decide, by decide +kernel⟩, by decide +kernel⟩
  obtain ⟨child, link, _⟩ := Relation.TransGen.head'_iff.mp cycle
  have childless : ∀ id ∈ [EntityId.mk 0, ⟨1⟩, ⟨2⟩], ⟨0⟩ ∉ brood.allParents id := by decide +kernel
  exact childless child link.childGiven link.named

end Model

end ClassModel
