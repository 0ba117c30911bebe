import ClassModel.Proofs.Inheritance.Precedence

/-! Superclasses before subclasses, when entities are given several times.

An entity that is given several times is counted down as often for every parent, so one with several
parents can be placed before some of them. Where that cannot happen, repetitions change nothing: two
lists with the same entities are placed side by side, and although their queues differ, the same one
is always next.
-/

set_option autoImplicit false

namespace ClassModel

/-! ## Queues -/

/-- Two queues in which those that remain come up in the same order. -/
def SameTurns (remaining first second : List EntityId) : Prop :=
  (first.filter remaining.contains).eraseDups = (second.filter remaining.contains).eraseDups

namespace SameTurns

variable {remaining first second : List EntityId}

theorem find? (same : SameTurns remaining first second) :
    first.find? remaining.contains = second.find? remaining.contains := by
  unfold SameTurns at same
  rw [eraseDups_filter, eraseDups_filter] at same
  rw [← find?_eraseDups first, ← find?_eraseDups second, ← List.head?_filter, ← List.head?_filter,
    same]

theorem append {firstLater secondLater : List EntityId} (same : SameTurns remaining first second)
    (later : SameTurns remaining firstLater secondLater) :
    SameTurns remaining (first ++ firstLater) (second ++ secondLater) := by
  unfold SameTurns
  rw [List.filter_append, List.filter_append]
  exact eraseDups_append_congr same later

theorem fewer {left : List EntityId} (same : SameTurns remaining first second)
    (among : left ⊆ remaining) : SameTurns left first second := by
  have narrowed : ∀ queue : List EntityId, queue.filter left.contains =
      (queue.filter remaining.contains).filter left.contains := by
    intro queue
    rw [List.filter_filter]
    refine List.filter_congr fun id _ => ?_
    rw [Bool.eq_iff_iff]
    simpa using fun member => among member
  unfold SameTurns at *
  rw [narrowed first, narrowed second, eraseDups_filter, eraseDups_filter (second.filter _), same]

end SameTurns

-- As long as nobody is counted down twice, the list of children tells who is released, and when.
theorem Pending.filter_release (pending : Pending) (keep : EntityId → Bool)
    {children : List EntityId}
    (once : ∀ id, keep id → children.count id ≤ 1 ∨ pending.count id ≤ 1) :
    (pending.release children).2.filter keep =
      children.filter fun id => keep id && pending.count id ≤ 1 := by
  induction children generalizing pending with
  | nil => rfl
  | cons child rest ih =>
    have onceLater : ∀ id, keep id → rest.count id ≤ 1 ∨ (pending.decrement child).count id ≤ 1 := by
      intro id kept
      rw [count_decrement]
      have here := once id kept
      rw [List.count_cons] at here
      split <;> omega
    have later := ih (pending.decrement child) onceLater
    have same : rest.filter (fun id => keep id && (pending.decrement child).count id ≤ 1) =
        rest.filter fun id => keep id && pending.count id ≤ 1 := by
      refine List.filter_congr fun id listed => ?_
      by_cases kept : keep id
      · rw [count_decrement]
        split
        · rename_i again
          subst again
          have twice : 1 < (id :: rest).count id := by
            rw [List.count_cons_self]
            exact Nat.lt_add_of_pos_left (List.count_pos_iff.mpr listed)
          have few : pending.count id ≤ 1 := (once id kept).resolve_left (by omega)
          simp [kept, few]
        · rfl
      · simp [kept]
    rw [same] at later
    have now : (pending.decrement child).count child = 0 ↔ pending.count child ≤ 1 := by
      rw [count_decrement, if_pos rfl]
      omega
    simp only [release]
    by_cases kept : keep child
    · by_cases few : pending.count child ≤ 1
      · rw [if_pos (now.mpr few), List.filter_cons_of_pos kept, List.filter_cons_of_pos, later]
        simp [kept, few]
      · rw [if_neg (mt now.mp few), later, List.filter_cons_of_neg]
        simp [few]
    · rw [List.filter_cons_of_neg (l := rest)]
      · split
        · rw [List.filter_cons_of_neg kept, later]
        · exact later
      · simp [kept]

namespace Model

variable {model : Model}

/-! ## Placing two lists side by side -/

-- Among those that remain, the children of the one that is placed come up as they are first given,
-- as far as they wait for nobody else.
theorem Waiting.turns_release {members remaining released : List EntityId} {pending : Pending}
    (waiting : Waiting model members remaining released pending)
    (counts : ∀ id ∈ members, model.CountsOnce members id) (placed : EntityId) :
    ((pending.release (model.childrenAmong members placed)).2.filter remaining.contains).eraseDups =
      (model.childrenAmong members.eraseDups placed).filter fun id =>
        remaining.contains id && (model.parentsLeft members remaining id).length ≤ 1 := by
  have counted : ∀ id, remaining.contains id →
      pending.count id = (model.parentsLeft members remaining id).length := by
    intro id left
    have member := List.contains_iff_mem.mp left
    rw [waiting.count id member]
    exact (counts id (waiting.given member)).countLeft (waiting.given member)
  have once : ∀ id, remaining.contains id →
      (model.childrenAmong members placed).count id ≤ 1 ∨ pending.count id ≤ 1 := by
    intro id left
    rcases counts id (waiting.given (List.contains_iff_mem.mp left)) with single | few
    · exact .inl (Nat.le_trans (List.Sublist.count_le id List.filter_sublist) single)
    · rw [counted id left]
      exact .inr (Nat.le_trans (List.length_filter_le _ _) few)
  rw [pending.filter_release _ once, eraseDups_filter, childrenAmong, eraseDups_filter, childrenAmong]
  refine List.filter_congr fun id _ => ?_
  by_cases left : remaining.contains id
  · rw [counted id left]
  · rw [Bool.not_eq_true] at left
    rw [left, Bool.false_and, Bool.false_and]

section

variable {first second : List EntityId} (same : first.eraseDups = second.eraseDups)

include same

theorem parentsAmong_congr (id : EntityId) :
    model.parentsAmong first id = model.parentsAmong second id := by
  unfold parentsAmong
  refine congrArg List.eraseDups (List.filter_congr fun parent _ => ?_)
  simp only [List.contains_eq_mem, mem_iff_of_eraseDups same]

theorem placeInOrder_congr (agree : model.LinksAgree)
    (firstCounts : ∀ id ∈ first, model.CountsOnce first id)
    (secondCounts : ∀ id ∈ second, model.CountsOnce second id)
    {remaining firstQueue secondQueue : List EntityId} {firstPending secondPending : Pending}
    (firstWaiting : Waiting model first remaining firstQueue firstPending)
    (secondWaiting : Waiting model second remaining secondQueue secondPending)
    (turns : SameTurns remaining firstQueue secondQueue) :
    model.placeInOrder first remaining firstQueue firstPending =
      model.placeInOrder second remaining secondQueue secondPending := by
  fun_induction placeInOrder model first remaining firstQueue firstPending
    generalizing secondQueue secondPending
  case case1 remaining queue pending found =>
    rw [model.placeInOrder_of_none second secondPending (turns.find?.symm.trans found)]
  case case2 remaining queue pending placed found next ih =>
    have foundToo := turns.find?.symm.trans found
    have released : SameTurns remaining next.2
        (secondPending.release (model.childrenAmong second placed)).2 := by
      unfold SameTurns
      rw [firstWaiting.turns_release firstCounts, secondWaiting.turns_release secondCounts, same]
      exact List.filter_congr fun id _ => by rw [parentsLeft, parentsLeft, parentsAmong_congr same]
    rw [model.placeInOrder_of_some second secondPending foundToo]
    exact congrArg (placed :: ·) (ih (firstWaiting.step agree found)
      (secondWaiting.step agree foundToo) ((turns.append released).fewer List.erase_subset))

theorem placeable_congr (agree : model.LinksAgree)
    (firstCounts : ∀ id ∈ first, model.CountsOnce first id)
    (secondCounts : ∀ id ∈ second, model.CountsOnce second id) :
    model.placeable first = model.placeable second := by
  have secondWaiting := waiting_start model second
  unfold placeable
  rw [← same] at secondWaiting ⊢
  refine placeInOrder_congr same agree firstCounts secondCounts (waiting_start model first)
    secondWaiting ?_
  unfold SameTurns
  rw [eraseDups_filter, eraseDups_filter, eraseDups_filter, eraseDups_filter, same]
  refine congrArg _ (List.filter_congr fun id member => ?_)
  have given := List.mem_eraseDups.mp member
  rw [Pending.count_map _ given, Pending.count_map _ ((mem_iff_of_eraseDups same id).mpr given),
    parentsAmong_congr same]

end

/-! ## What repetitions do -/

/-- A superclass-first order of entities some of which may be given several times. -/
structure RepeatsOrdered (model : Model) (members : List EntityId) : Prop where
  all : (model.superclassFirstOrder members).Perm members.eraseDups
  /-- An entity given `n` times is behind at least an `n`-th of its parents. -/
  behindEnough : ∀ child ∈ members, ¬ model.BelowCycle members child →
    (model.parentsAmong members child).length ≤ members.count child *
      (model.parentsAmong members child).countP fun parent =>
        (model.superclassFirstOrder members).idxOf parent <
          (model.superclassFirstOrder members).idxOf child
  /-- One that is given once is behind all of them, whatever is repeated beside it. -/
  behindParents : ∀ parent child, model.LinkAmong members parent child →
    ¬ model.BelowCycle members child → model.CountsOnce members child →
      (model.superclassFirstOrder members).idxOf parent <
        (model.superclassFirstOrder members).idxOf child
  quiet : (∀ id, ¬ model.BelowCycle members id) → model.orderFindings members = []
  /-- If nobody with several parents is repeated, repetitions do not matter. -/
  collapse : (∀ id ∈ members, model.CountsOnce members id) →
    model.superclassFirstOrder members = model.superclassFirstOrder members.eraseDups ∧
      model.orderFindings members = model.orderFindings members.eraseDups

theorem LinksAgree.superclassFirstOrder_eraseDups (agree : model.LinksAgree)
    (members : List EntityId) : model.RepeatsOrdered members := by
  refine ⟨?all, ?behindEnough, ?behindParents, ?quiet, ?collapse⟩
  case all =>
    refine (List.perm_ext_iff_of_nodup (model.nodup_superclassFirstOrder members)
      (nodup_eraseDups members)).mpr fun id => ?_
    rw [model.mem_superclassFirstOrder, List.mem_eraseDups]
  case behindEnough =>
    intro child given free
    have childPlaced := mem_placeable_of_free agree given free
    refine Nat.le_trans (enough_before agree childPlaced) (Nat.mul_le_mul_left _ ?_)
    exact List.countP_mono_left fun parent _ before =>
      decide_eq_true (idxOf_lt_of_placeable childPlaced (of_decide_eq_true before))
  case behindParents =>
    intro parent child link free counts
    have childPlaced := mem_placeable_of_free agree link.childGiven free
    exact idxOf_lt_of_placeable childPlaced
      (idxOf_placeable_lt_of_countsOnce agree link counts childPlaced)
  case quiet =>
    intro free
    have none : model.unplaceable members = [] := by
      refine List.filter_eq_nil_iff.mpr fun id member => ?_
      simp [mem_placeable_of_free agree (List.mem_eraseDups.mp member) (free id)]
    rw [orderFindings, none, List.map_nil]
  case collapse =>
    intro counts
    have once := nodup_eraseDups members
    have same : members.eraseDups = members.eraseDups.eraseDups := (eraseDups_eq_self once).symm
    have order : model.placeable members = model.placeable members.eraseDups :=
      placeable_congr same agree counts fun id _ => countsOnce_of_nodup once id
    have rest : model.unplaceable members = model.unplaceable members.eraseDups := by
      rw [unplaceable, unplaceable, ← same, order]
    exact ⟨by rw [superclassFirstOrder, superclassFirstOrder, order, rest],
      by rw [orderFindings, orderFindings, rest]⟩

/-- Taxis are cars, and named as vehicles once more. -/
def fleet : Model :=
  [Edit.insertEntity (.named "Vehicle"), .insertEntity (.named "Car"), .insertEntity (.named "Taxi"),
    .setSuperclass ⟨1⟩ (some ⟨0⟩), .setSuperclass ⟨2⟩ (some ⟨1⟩), .addParent ⟨2⟩ ⟨0⟩].foldl
    Edit.apply .empty

theorem superclassFirstOrder_fleet : fleet.LinksAgree ∧
    (∀ id ∈ [⟨2⟩, ⟨1⟩, ⟨1⟩, ⟨0⟩, ⟨0⟩], fleet.CountsOnce [⟨2⟩, ⟨1⟩, ⟨1⟩, ⟨0⟩, ⟨0⟩] id) ∧
      fleet.superclassFirstOrder [⟨2⟩, ⟨1⟩, ⟨1⟩, ⟨0⟩, ⟨0⟩] =
        fleet.superclassFirstOrder [⟨2⟩, ⟨1⟩, ⟨0⟩] := by
  have agree : fleet.LinksAgree := by decide +kernel
  have counts : ∀ id ∈ [⟨2⟩, ⟨1⟩, ⟨1⟩, ⟨0⟩, ⟨0⟩],
      fleet.CountsOnce [⟨2⟩, ⟨1⟩, ⟨1⟩, ⟨0⟩, ⟨0⟩] id := by decide +kernel
  exact ⟨agree, counts, ((agree.superclassFirstOrder_eraseDups _).collapse counts).1⟩

/-- Given twice, taxis are counted down twice when vehicles are placed, and come before cars. -/
theorem fleet_taxis_early : fleet.LinksAgree ∧ (∀ id, ¬ fleet.OnCycle id) ∧
    fleet.LinkAmong [⟨0⟩, ⟨2⟩, ⟨2⟩, ⟨1⟩] ⟨1⟩ ⟨2⟩ ∧
      fleet.superclassFirstOrder [⟨0⟩, ⟨2⟩, ⟨2⟩, ⟨1⟩] = [⟨0⟩, ⟨2⟩, ⟨1⟩] ∧
      fleet.superclassFirstOrder [⟨0⟩, ⟨2⟩, ⟨2⟩, ⟨1⟩].eraseDups = [⟨0⟩, ⟨1⟩, ⟨2⟩] :=
  ⟨by decide +kernel, not_onCycle_of_lt (by decide +kernel),
    ⟨by decide, by decide, by decide, by decide +kernel⟩, by decide +kernel, by decide +kernel⟩

end Model

end ClassModel
