import ClassModel.Model.Script
import ClassModel.Proofs.Inheritance.Links
import ClassModel.Proofs.Inheritance.Order

/-! Superclasses before subclasses: who is placed, and who has to wait.

What is counted for an entity that is given once is the number of its parents that are not placed
yet. So it is placed behind all its parents, and whoever is left over is on a cycle or below one. An
entity that is given several times is counted down as often for every parent.
-/

set_option autoImplicit false

namespace ClassModel

/-! ## Relations without cycles -/

-- The first one of the others is still the first, unless the new one is above it.
theorem exists_source {Item : Type} {Link : Item → Item → Prop} {pool : List Item}
    (acyclic : ∀ item ∈ pool, ¬ Relation.TransGen Link item item) (some : pool ≠ []) :
    ∃ item ∈ pool, ∀ other ∈ pool, ¬ Relation.TransGen Link other item := by
  induction pool with
  | nil => exact absurd rfl some
  | cons new rest ih =>
    have alone := acyclic new List.mem_cons_self
    by_cases last : rest = []
    · exact ⟨new, List.mem_cons_self, by simpa [last] using alone⟩
    · obtain ⟨first, member, source⟩ :=
        ih (fun item member => acyclic item (List.mem_cons_of_mem _ member)) last
      by_cases above : Relation.TransGen Link new first
      · refine ⟨new, List.mem_cons_self, fun other among link => ?_⟩
        rcases List.mem_cons.mp among with rfl | later
        · exact alone link
        · exact source other later (link.trans above)
      · refine ⟨first, List.mem_cons_of_mem _ member, fun other among link => ?_⟩
        rcases List.mem_cons.mp among with rfl | later
        · exact above link
        · exact source other later link

/-! ## Counting down -/

namespace Pending

theorem count_cons (entry : EntityId × Nat) (rest : Pending) (asked : EntityId) :
    count (entry :: rest) asked = if asked = entry.1 then entry.2 else rest.count asked := by
  rw [count, lookup_pair_cons]
  split <;> rfl

theorem count_map {members : List EntityId} (countOf : EntityId → Nat) {asked : EntityId}
    (member : asked ∈ members) :
    count (members.map fun id => (id, countOf id)) asked = countOf asked := by
  induction members with
  | nil => cases member
  | cons first rest ih =>
    rw [List.map_cons, count_cons]
    split
    · rename_i here
      exact congrArg countOf here.symm
    · rename_i other
      exact ih ((List.mem_cons.mp member).resolve_left other)

theorem count_decrement (pending : Pending) (child asked : EntityId) :
    (pending.decrement child).count asked =
      if asked = child then pending.count asked - 1 else pending.count asked := by
  induction pending with
  | nil => simp [decrement, count]
  | cons entry rest ih =>
    obtain ⟨id, waits⟩ := entry
    have later : decrement ((id, waits) :: rest) child =
        (if id = child then (id, waits - 1) else (id, waits)) :: decrement rest child := rfl
    rw [later, count_cons, count_cons, ih]
    by_cases same : id = child
    · subst same
      by_cases here : asked = id <;> simp [here]
    · by_cases here : asked = id <;> simp [here, same]

-- A child is counted down as often as it is listed, and released if nothing is left at the end.
theorem release_spec (pending : Pending) (children : List EntityId) (asked : EntityId) :
    (pending.release children).1.count asked = pending.count asked - children.count asked ∧
      (asked ∈ (pending.release children).2 ↔
        asked ∈ children ∧ pending.count asked - children.count asked = 0) := by
  induction children generalizing pending with
  | nil => simp [release]
  | cons child rest ih =>
    obtain ⟨counted, released⟩ := ih (pending.decrement child)
    rw [count_decrement] at counted released
    by_cases here : asked = child
    · subst here
      rw [if_pos rfl, Nat.sub_sub, Nat.add_comm] at counted released
      rw [List.count_cons_self]
      refine ⟨counted, ?_⟩
      simp only [release, count_decrement, if_pos, List.mem_cons, true_or, true_and]
      by_cases early : pending.count asked - 1 = 0
      · rw [if_pos early]
        simp only [List.mem_cons, true_or, true_iff]
        omega
      · rw [if_neg early, released, and_iff_right_iff_imp]
        intro none
        exact List.count_pos_iff.mp (by omega)
    · rw [if_neg here] at counted released
      rw [List.count_cons_of_ne (Ne.symm here)]
      refine ⟨counted, ?_⟩
      simp only [release, List.mem_cons, here, false_or]
      rw [← released]
      split <;> simp [here]

end Pending

namespace Model

/-! ## Links among given entities -/

/-- A link from a parent to a child among the given entities, if the two are different. -/
structure LinkAmong (model : Model) (members : List EntityId) (parent child : EntityId) : Prop where
  parentGiven : parent ∈ members
  childGiven : child ∈ members
  different : parent ≠ child
  named : parent ∈ model.allParents child

/-- Whether an entity is on a cycle of links among the given entities or is reached from one. -/
def BelowCycle (model : Model) (members : List EntityId) (id : EntityId) : Prop :=
  ∃ top, Relation.TransGen (model.LinkAmong members) top top ∧
    Relation.ReflTransGen (model.LinkAmong members) top id

section

variable {model : Model} {members : List EntityId} {parent child : EntityId}

theorem linkAmong_iff : model.LinkAmong members parent child ↔
    child ∈ members ∧ parent ∈ model.parentsAmong members child := by
  simp only [parentsAmong, List.mem_eraseDups, List.mem_filter, Bool.and_eq_true, bne_iff_ne,
    List.contains_iff_mem]
  constructor
  · rintro ⟨parentGiven, childGiven, different, named⟩
    exact ⟨childGiven, named, different, parentGiven⟩
  · rintro ⟨childGiven, named, different, parentGiven⟩
    exact ⟨parentGiven, childGiven, different, named⟩

theorem LinksAgree.mem_childrenAmong (agree : model.LinksAgree) (given : parent ∈ members) :
    child ∈ model.childrenAmong members parent ↔ model.LinkAmong members parent child := by
  have link : child ∈ model.children parent ↔ parent ∈ model.allParents child := agree parent child
  simp only [childrenAmong, List.mem_filter, Bool.and_eq_true, bne_iff_ne, List.contains_iff_mem, link]
  constructor
  · rintro ⟨childGiven, named, different⟩
    exact ⟨given, childGiven, different.symm, named⟩
  · rintro ⟨_, childGiven, different, named⟩
    exact ⟨childGiven, named, different.symm⟩

theorem count_childrenAmong (id : EntityId) : (model.childrenAmong members parent).count id =
    if id ∈ model.childrenAmong members parent then members.count id else 0 := by
  split
  · rename_i listed
    exact List.count_filter (List.mem_filter.mp listed).2
  · rename_i other
    exact List.count_eq_zero_of_not_mem other

theorem BelowCycle.exists_link (below : model.BelowCycle members child) :
    ∃ parent, model.LinkAmong members parent child := by
  obtain ⟨top, cycle, reached⟩ := below
  rcases Relation.ReflTransGen.cases_tail reached with rfl | ⟨parent, _, link⟩
  · obtain ⟨parent, _, link⟩ := Relation.TransGen.tail'_iff.mp cycle
    exact ⟨parent, link⟩
  · exact ⟨parent, link⟩

theorem BelowCycle.step (below : model.BelowCycle members parent)
    (link : model.LinkAmong members parent child) : model.BelowCycle members child := by
  obtain ⟨top, cycle, reached⟩ := below
  exact ⟨top, cycle, reached.tail link⟩

end

/-! ## In the middle of placing -/

/-- The parents of an entity among the given ones that are not placed yet. -/
def parentsLeft (model : Model) (members remaining : List EntityId) (id : EntityId) :
    List EntityId :=
  (model.parentsAmong members id).filter remaining.contains

/-- What is left to count for an entity: each parent that is placed counts as often as the entity
is given. -/
def countLeft (model : Model) (members remaining : List EntityId) (id : EntityId) : Nat :=
  (model.parentsAmong members id).length - members.count id *
    ((model.parentsAmong members id).length - (model.parentsLeft members remaining id).length)

/-- Whether repetitions do not matter for what is counted: an entity is given once, or it has no
second parent that could still be waited for. -/
def CountsOnce (model : Model) (members : List EntityId) (id : EntityId) : Prop :=
  members.count id ≤ 1 ∨ (model.parentsAmong members id).length ≤ 1

instance (model : Model) (members : List EntityId) (id : EntityId) :
    Decidable (model.CountsOnce members id) :=
  inferInstanceAs (Decidable (_ ∨ _))

/-- What holds while entities are placed: every one that is left waits for its count to run out, and
is released once it has. -/
structure Waiting (model : Model) (members remaining released : List EntityId)
    (pending : Pending) : Prop where
  given : remaining ⊆ members
  once : remaining.Nodup
  count : ∀ id ∈ remaining, pending.count id = model.countLeft members remaining id
  released : ∀ id ∈ remaining, id ∈ released ↔ pending.count id = 0

section

variable {model : Model} {members remaining released : List EntityId} {pending : Pending}

theorem mem_parentsLeft {parent child : EntityId} (given : child ∈ members) :
    parent ∈ model.parentsLeft members remaining child ↔
      model.LinkAmong members parent child ∧ parent ∈ remaining := by
  simp [parentsLeft, linkAmong_iff, given]

theorem parentsLeft_erase (once : remaining.Nodup) (placed id : EntityId) :
    model.parentsLeft members (remaining.erase placed) id =
      (model.parentsLeft members remaining id).erase placed := by
  have distinct : (model.parentsLeft members remaining id).Nodup := (nodup_eraseDups _).filter _
  rw [distinct.erase_eq_filter]
  unfold parentsLeft
  rw [List.filter_filter]
  refine List.filter_congr fun parent _ => ?_
  rw [Bool.eq_iff_iff]
  simp [once.mem_erase_iff]

theorem length_parentsLeft_erase (once : remaining.Nodup) {placed : EntityId}
    (left : placed ∈ remaining) (id : EntityId) :
    (model.parentsLeft members (remaining.erase placed) id).length =
      if placed ∈ model.parentsAmong members id then
        (model.parentsLeft members remaining id).length - 1
      else (model.parentsLeft members remaining id).length := by
  have waits : placed ∈ model.parentsLeft members remaining id ↔
      placed ∈ model.parentsAmong members id := by
    simp [parentsLeft, left]
  rw [parentsLeft_erase once, List.length_erase]
  simp only [waits]

theorem countLeft_erase (once : remaining.Nodup) {placed : EntityId} (left : placed ∈ remaining)
    (id : EntityId) : model.countLeft members (remaining.erase placed) id =
      model.countLeft members remaining id -
        if placed ∈ model.parentsAmong members id then members.count id else 0 := by
  have fewer : (model.parentsLeft members remaining id).length ≤
      (model.parentsAmong members id).length := List.length_filter_le _ _
  unfold countLeft
  rw [length_parentsLeft_erase once left]
  split
  · rename_i named
    have some : 0 < (model.parentsLeft members remaining id).length :=
      List.length_pos_of_mem (List.mem_filter.mpr ⟨named, List.contains_iff_mem.mpr left⟩)
    generalize (model.parentsLeft members remaining id).length = waits at fewer some ⊢
    generalize (model.parentsAmong members id).length = parents at fewer ⊢
    have oneMore : parents - (waits - 1) = (parents - waits) + 1 := by omega
    rw [oneMore, Nat.mul_succ, Nat.sub_sub]
  · rfl

theorem countLeft_of_no_parentsLeft {id : EntityId} (given : id ∈ members)
    (none : (model.parentsLeft members remaining id).length = 0) :
    model.countLeft members remaining id = 0 := by
  rw [countLeft, none]
  exact Nat.sub_eq_zero_of_le (Nat.le_mul_of_pos_left _ (List.count_pos_iff.mpr given))

theorem CountsOnce.countLeft {id : EntityId} (counts : model.CountsOnce members id)
    (given : id ∈ members) : model.countLeft members remaining id =
      (model.parentsLeft members remaining id).length := by
  have fewer : (model.parentsLeft members remaining id).length ≤
      (model.parentsAmong members id).length := List.length_filter_le _ _
  have times : 0 < members.count id := List.count_pos_iff.mpr given
  unfold Model.countLeft
  rcases counts with single | few
  · have once : members.count id = 1 := by omega
    rw [once, Nat.one_mul]
    omega
  · by_cases placed : (model.parentsLeft members remaining id).length = 0
    · rw [placed]
      exact Nat.sub_eq_zero_of_le (Nat.le_mul_of_pos_left _ times)
    · have same : (model.parentsAmong members id).length =
          (model.parentsLeft members remaining id).length := by omega
      simp [same]

-- Where repetitions do not matter, enough parents are all parents.
theorem CountsOnce.all_of_enough {id : EntityId} (counts : model.CountsOnce members id)
    (given : id ∈ members) {before : EntityId → Bool}
    (enough : (model.parentsAmong members id).length ≤
      members.count id * (model.parentsAmong members id).countP before) :
    ∀ parent ∈ model.parentsAmong members id, before parent := by
  have times : 0 < members.count id := List.count_pos_iff.mpr given
  have most : (model.parentsAmong members id).countP before ≤
      (model.parentsAmong members id).length := List.countP_le_length
  refine List.countP_eq_length.mp ?_
  rcases counts with single | few
  · have once : members.count id = 1 := by omega
    rw [once, Nat.one_mul] at enough
    exact Nat.le_antisymm most enough
  · rcases Nat.eq_zero_or_pos ((model.parentsAmong members id).countP before) with none | some
    · rw [none, Nat.mul_zero] at enough
      omega
    · omega

theorem countsOnce_of_nodup (once : members.Nodup) (id : EntityId) : model.CountsOnce members id :=
  .inl (List.nodup_iff_count_le_one.mp once id)

theorem parentsLeft_start {id : EntityId} (given : id ∈ members) :
    model.parentsLeft members members.eraseDups id = model.parentsAmong members id := by
  refine List.filter_eq_self.mpr fun parent named => ?_
  have link : model.LinkAmong members parent id := linkAmong_iff.mpr ⟨given, named⟩
  exact List.contains_iff_mem.mpr (List.mem_eraseDups.mpr link.parentGiven)

theorem waiting_start (model : Model) (members : List EntityId) :
    Waiting model members members.eraseDups
      (members.filter fun id => Pending.count
        (members.map fun id => (id, (model.parentsAmong members id).length)) id == 0)
      (members.map fun id => (id, (model.parentsAmong members id).length)) where
  given id member := List.mem_eraseDups.mp member
  once := nodup_eraseDups members
  count id member := by
    have given := List.mem_eraseDups.mp member
    rw [Pending.count_map _ given, countLeft, parentsLeft_start given]
    simp
  released id member := by simp [List.mem_eraseDups.mp member]

namespace Waiting

variable (waiting : Waiting model members remaining released pending)

include waiting

theorem stuck (found : released.find? remaining.contains = none) {id : EntityId}
    (left : id ∈ remaining) : ∃ parent ∈ remaining, model.LinkAmong members parent id := by
  have unreleased : id ∉ released := fun member =>
    List.find?_eq_none.mp found id member (List.contains_iff_mem.mpr left)
  have waits : (model.parentsLeft members remaining id).length ≠ 0 := by
    intro none
    refine unreleased ((waiting.released id left).mpr ?_)
    rw [waiting.count id left, countLeft_of_no_parentsLeft (waiting.given left) none]
  obtain ⟨parent, among⟩ := List.exists_mem_of_length_pos (Nat.pos_of_ne_zero waits)
  obtain ⟨link, there⟩ := (mem_parentsLeft (waiting.given left)).mp among
  exact ⟨parent, there, link⟩

theorem step (agree : model.LinksAgree) {placed : EntityId}
    (found : released.find? remaining.contains = some placed) :
    Waiting model members (remaining.erase placed)
      (released ++ (pending.release (model.childrenAmong members placed)).2)
      (pending.release (model.childrenAmong members placed)).1 := by
  have left : placed ∈ remaining := List.contains_iff_mem.mp (List.find?_some found)
  have child : ∀ id ∈ remaining, id ∈ model.childrenAmong members placed ↔
      placed ∈ model.parentsAmong members id := by
    intro id member
    rw [agree.mem_childrenAmong (waiting.given left), linkAmong_iff]
    exact and_iff_right (waiting.given member)
  refine ⟨fun id member => waiting.given (List.mem_of_mem_erase member),
    waiting.once.erase placed, fun id member => ?count, fun id member => ?released⟩
  all_goals
    have before := List.mem_of_mem_erase member
    obtain ⟨counted, released⟩ := pending.release_spec (model.childrenAmong members placed) id
  case count =>
    rw [counted, countLeft_erase waiting.once left, waiting.count id before, count_childrenAmong]
    simp only [child id before]
  case released =>
    rw [List.mem_append, released, counted, waiting.released id before]
    by_cases listed : id ∈ model.childrenAmong members placed
    · simp only [listed, true_and]
      omega
    · simp [listed, List.count_eq_zero_of_not_mem listed]

-- Whoever is placed has its count used up: by the parents that were placed before, and by those
-- that come up on the way to it.
theorem enoughFirst (agree : model.LinksAgree) {child : EntityId}
    (placed : child ∈ model.placeInOrder members remaining released pending) :
    (model.parentsAmong members child).length ≤ members.count child *
      ((model.parentsAmong members child).length -
          (model.parentsLeft members remaining child).length +
        (model.parentsLeft members remaining child).countP fun parent =>
          (model.placeInOrder members remaining released pending).idxOf parent <
            (model.placeInOrder members remaining released pending).idxOf child) := by
  fun_induction placeInOrder model members remaining released pending with
  | case1 => cases placed
  | case2 remaining released pending first found next ih =>
    have left : first ∈ remaining := List.contains_iff_mem.mp (List.find?_some found)
    by_cases now : child = first
    · subst now
      have none := (waiting.released child left).mp (List.mem_of_find?_eq_some found)
      rw [waiting.count child left, countLeft] at none
      have enough := Nat.le_of_sub_eq_zero none
      exact Nat.le_trans enough (Nat.mul_le_mul_left _ (Nat.le_add_right _ _))
    · have enough := ih (waiting.step agree found) ((List.mem_cons.mp placed).resolve_left now)
      have distinct : (model.parentsLeft members remaining child).Nodup := (nodup_eraseDups _).filter _
      have fewer : (model.parentsLeft members remaining child).length ≤
          (model.parentsAmong members child).length := List.length_filter_le _ _
      rw [parentsLeft_erase waiting.once] at enough
      rw [countP_idxOf_cons distinct now]
      refine Nat.le_trans enough (Nat.mul_le_mul_left _ ?_)
      rw [List.length_erase]
      split
      · rename_i named
        have some := List.length_pos_of_mem named
        omega
      · omega

theorem parentWaits (agree : model.LinksAgree) {id : EntityId} (left : id ∈ remaining)
    (waits : id ∉ model.placeInOrder members remaining released pending) :
    ∃ parent ∈ remaining, model.LinkAmong members parent id ∧
      parent ∉ model.placeInOrder members remaining released pending := by
  fun_induction placeInOrder model members remaining released pending with
  | case1 remaining released pending found =>
    obtain ⟨parent, there, link⟩ := waiting.stuck found left
    exact ⟨parent, there, link, List.not_mem_nil⟩
  | case2 remaining released pending first found next ih =>
    rw [List.mem_cons, not_or] at waits
    obtain ⟨parent, there, link, parentWaits⟩ := ih (waiting.step agree found)
      ((List.mem_erase_of_ne waits.1).mpr left) waits.2
    have other : parent ≠ first := fun same =>
      waiting.once.not_mem_erase (same ▸ there)
    exact ⟨parent, List.mem_of_mem_erase there, link, by simp [other, parentWaits]⟩

end Waiting

end

/-! ## Who is placed -/

-- Whoever is in front of somebody placed is placed too, and the placed ones come first.
theorem idxOf_lt_of_placeable {model : Model} {members : List EntityId} {parent child : EntityId}
    (placed : child ∈ model.placeable members)
    (before : (model.placeable members).idxOf parent < (model.placeable members).idxOf child) :
    (model.superclassFirstOrder members).idxOf parent <
      (model.superclassFirstOrder members).idxOf child := by
  have parentPlaced : parent ∈ model.placeable members :=
    List.idxOf_lt_length_iff.mp (Nat.lt_of_lt_of_le before List.idxOf_le_length)
  rwa [superclassFirstOrder, List.idxOf_append_of_mem placed,
    List.idxOf_append_of_mem parentPlaced]

section

variable {model : Model} {members : List EntityId} (agree : model.LinksAgree)

include agree

-- Each parent in front counts as often as the entity is given.
theorem enough_before {child : EntityId} (placed : child ∈ model.placeable members) :
    (model.parentsAmong members child).length ≤ members.count child *
      (model.parentsAmong members child).countP fun parent =>
        (model.placeable members).idxOf parent < (model.placeable members).idxOf child := by
  have given := List.mem_eraseDups.mp (model.mem_placeInOrder _ _ _ _ placed)
  have enough := (waiting_start model members).enoughFirst agree placed
  rwa [parentsLeft_start given, Nat.sub_self, Nat.zero_add] at enough

theorem idxOf_placeable_lt_of_countsOnce {parent child : EntityId}
    (link : model.LinkAmong members parent child) (counts : model.CountsOnce members child)
    (placed : child ∈ model.placeable members) :
    (model.placeable members).idxOf parent < (model.placeable members).idxOf child :=
  of_decide_eq_true (counts.all_of_enough link.childGiven (enough_before agree placed) parent
    (linkAmong_iff.mp link).2)

-- Whoever waits does so for somebody else who waits, and only a cycle lets that go on forever.
theorem belowCycle_of_not_placed {id : EntityId} (given : id ∈ members)
    (waits : id ∉ model.placeable members) : model.BelowCycle members id := by
  classical
  refine Classical.byContradiction fun free => ?_
  let pool := members.filter fun id => id ∉ model.placeable members ∧ ¬ model.BelowCycle members id
  have mem_pool : ∀ id, id ∈ pool ↔
      id ∈ members ∧ id ∉ model.placeable members ∧ ¬ model.BelowCycle members id := by
    simp [pool]
  have acyclic : ∀ id ∈ pool, ¬ Relation.TransGen (model.LinkAmong members) id id :=
    fun id member cycle => ((mem_pool id).mp member).2.2 ⟨id, cycle, .refl⟩
  obtain ⟨first, member, source⟩ :=
    exists_source acyclic (List.ne_nil_of_mem ((mem_pool id).mpr ⟨given, waits, free⟩))
  obtain ⟨there, firstWaits, firstFree⟩ := (mem_pool first).mp member
  obtain ⟨parent, _, link, parentWaits⟩ := (waiting_start model members).parentWaits agree
    (List.mem_eraseDups.mpr there) firstWaits
  have parentFree : ¬ model.BelowCycle members parent := fun below => firstFree (below.step link)
  exact source parent ((mem_pool parent).mpr ⟨link.parentGiven, parentWaits, parentFree⟩)
    (.single link)

theorem mem_placeable_of_free {id : EntityId} (given : id ∈ members)
    (free : ¬ model.BelowCycle members id) : id ∈ model.placeable members :=
  Classical.byContradiction fun waits => free (belowCycle_of_not_placed agree given waits)

end

section

variable {model : Model} {members : List EntityId} (agree : model.LinksAgree)
  (once : members.Nodup)

include agree once

theorem idxOf_placeable_lt {parent child : EntityId} (link : model.LinkAmong members parent child)
    (placed : child ∈ model.placeable members) :
    (model.placeable members).idxOf parent < (model.placeable members).idxOf child :=
  idxOf_placeable_lt_of_countsOnce agree link (countsOnce_of_nodup once child) placed

theorem mem_placeable_of_link {parent child : EntityId}
    (link : model.LinkAmong members parent child) (placed : child ∈ model.placeable members) :
    parent ∈ model.placeable members :=
  List.idxOf_lt_length_iff.mp
    (Nat.lt_of_lt_of_le (idxOf_placeable_lt agree once link placed) List.idxOf_le_length)

theorem idxOf_placeable_lt_of_above {top id : EntityId}
    (above : Relation.TransGen (model.LinkAmong members) top id)
    (placed : id ∈ model.placeable members) :
    (model.placeable members).idxOf top < (model.placeable members).idxOf id := by
  induction above with
  | single link => exact idxOf_placeable_lt agree once link placed
  | tail _ link ih =>
    have earlier := mem_placeable_of_link agree once link placed
    exact Nat.lt_trans (ih earlier) (idxOf_placeable_lt agree once link placed)

theorem not_belowCycle_of_placed {id : EntityId} (placed : id ∈ model.placeable members) :
    ¬ model.BelowCycle members id := by
  rintro ⟨top, cycle, reached⟩
  have topPlaced : top ∈ model.placeable members := by
    induction reached with
    | refl => exact placed
    | tail _ link ih => exact ih (mem_placeable_of_link agree once link placed)
  exact Nat.lt_irrefl _ (idxOf_placeable_lt_of_above agree once cycle topPlaced)

theorem mem_placeable {id : EntityId} :
    id ∈ model.placeable members ↔ id ∈ members ∧ ¬ model.BelowCycle members id := by
  constructor
  · intro placed
    exact ⟨List.mem_eraseDups.mp (model.mem_placeInOrder _ _ _ _ placed),
      not_belowCycle_of_placed agree once placed⟩
  · rintro ⟨given, free⟩
    exact mem_placeable_of_free agree given free

theorem mem_unplaceable {id : EntityId} :
    id ∈ model.unplaceable members ↔ id ∈ members ∧ model.BelowCycle members id := by
  have waits : id ∈ model.unplaceable members ↔ id ∈ members ∧ id ∉ model.placeable members := by
    simp [unplaceable, List.mem_eraseDups]
  rw [waits, mem_placeable agree once]
  exact and_congr_right fun given => by simp [given]

theorem idxOf_superclassFirstOrder_lt {parent child : EntityId}
    (link : model.LinkAmong members parent child) (free : ¬ model.BelowCycle members child) :
    (model.superclassFirstOrder members).idxOf parent <
      (model.superclassFirstOrder members).idxOf child := by
  have placed := (mem_placeable agree once).mpr ⟨link.childGiven, free⟩
  exact idxOf_lt_of_placeable placed (idxOf_placeable_lt agree once link placed)

theorem pairwise_superclassFirstOrder
    (acyclic : ∀ id, ¬ Relation.TransGen (model.LinkAmong members) id id) :
    (model.superclassFirstOrder members).Pairwise fun earlier later =>
      ¬ model.LinkAmong members later earlier := by
  refine List.pairwise_iff_getElem.mpr fun first second firstThere secondThere before link => ?_
  have free : ∀ id, ¬ model.BelowCycle members id := fun id ⟨top, cycle, _⟩ => acyclic top cycle
  have behind := idxOf_superclassFirstOrder_lt agree once link (free _)
  have distinct := model.nodup_superclassFirstOrder members
  rw [distinct.idxOf_getElem, distinct.idxOf_getElem] at behind
  exact Nat.lt_asymm before behind

end

/-- A superclass-first order of given entities in two parts. Those that no cycle holds back are
placed, each behind all its parents; the others wait at the end as they were given. -/
structure SuperclassFirst (model : Model) (members placed waiting : List EntityId) : Prop where
  free : ∀ id, id ∈ placed ↔ id ∈ members ∧ ¬ model.BelowCycle members id
  behindParents : ∀ parent child, model.LinkAmong members parent child → child ∈ placed →
    placed.idxOf parent < placed.idxOf child
  held : ∀ id, id ∈ waiting ↔ id ∈ members ∧ model.BelowCycle members id
  asGiven : waiting.Sublist members

/-- Every given entity is in the order once: first those that no cycle holds back, behind all their
parents, then the others as given, with one report each. Without cycles everyone is behind all
parents, and nothing is reported. -/
theorem LinksAgree.superclassFirstOrder_topological {model : Model} (agree : model.LinksAgree)
    {members : List EntityId} (once : members.Nodup) :
    (model.superclassFirstOrder members).Perm members ∧
      (∃ placed waiting, model.superclassFirstOrder members = placed ++ waiting ∧
        model.SuperclassFirst members placed waiting ∧
        model.orderFindings members = waiting.map fun id =>
          .cycle (model.name id) (model.name ((model.superclass id).getD id))) ∧
      ((∀ id, ¬ Relation.TransGen (model.LinkAmong members) id id) →
        (∀ parent child, model.LinkAmong members parent child →
          (model.superclassFirstOrder members).idxOf parent <
            (model.superclassFirstOrder members).idxOf child) ∧
        model.orderFindings members = []) := by
  refine ⟨?all, ⟨model.placeable members, model.unplaceable members, rfl, ?split, rfl⟩, ?acyclic⟩
  case all =>
    exact (List.perm_ext_iff_of_nodup (model.nodup_superclassFirstOrder members) once).mpr
      fun id => model.mem_superclassFirstOrder
  case split =>
    refine ⟨fun id => mem_placeable agree once,
      fun parent child => idxOf_placeable_lt agree once, fun id => mem_unplaceable agree once, ?_⟩
    unfold unplaceable
    rw [eraseDups_eq_self once]
    exact List.filter_sublist
  case acyclic =>
    intro acyclic
    have free : ∀ id, ¬ model.BelowCycle members id := fun id ⟨top, cycle, _⟩ => acyclic top cycle
    have none : model.unplaceable members = [] := List.eq_nil_iff_forall_not_mem.mpr
      fun id waits => free id ((mem_unplaceable agree once).mp waits).2
    have order : model.superclassFirstOrder members = model.placeable members := by
      rw [superclassFirstOrder, none, List.append_nil]
    refine ⟨fun parent child link => ?_, by rw [orderFindings, none, List.map_nil]⟩
    rw [order]
    exact idxOf_placeable_lt agree once link
      ((mem_placeable agree once).mpr ⟨link.childGiven, free child⟩)

/-- A subclass with two superclasses, one of which names itself, and two entities that are each
other's superclass and have a subclass as well. -/
def tangle : Model :=
  [Edit.insertEntity (.named "Base"), .insertEntity (.named "Left"), .insertEntity (.named "Right"),
    .insertEntity (.named "Both"), .insertEntity (.named "Egg"), .insertEntity (.named "Hen"),
    .insertEntity (.named "Chick"), .setSuperclass ⟨0⟩ (some ⟨0⟩), .setSuperclass ⟨1⟩ (some ⟨0⟩),
    .setSuperclass ⟨2⟩ (some ⟨0⟩), .addParent ⟨3⟩ ⟨1⟩, .setSuperclass ⟨3⟩ (some ⟨1⟩),
    .addParent ⟨3⟩ ⟨2⟩, .setSuperclass ⟨4⟩ (some ⟨5⟩), .setSuperclass ⟨5⟩ (some ⟨4⟩),
    .setSuperclass ⟨6⟩ (some ⟨5⟩), .addParent ⟨6⟩ ⟨0⟩].foldl Edit.apply .empty

def tangled : List EntityId := [⟨6⟩, ⟨3⟩, ⟨5⟩, ⟨2⟩, ⟨1⟩, ⟨4⟩, ⟨0⟩]

theorem superclassFirstOrder_tangle :
    tangle.LinksAgree ∧ tangled.Nodup ∧
      tangle.superclassFirstOrder tangled = [⟨0⟩, ⟨2⟩, ⟨1⟩, ⟨3⟩, ⟨6⟩, ⟨5⟩, ⟨4⟩] ∧
      ∃ placed waiting, tangle.superclassFirstOrder tangled = placed ++ waiting ∧
        tangle.SuperclassFirst tangled placed waiting := by
  have agree : tangle.LinksAgree := by decide +kernel
  have once : tangled.Nodup := by decide
  obtain ⟨_, ⟨placed, waiting, split, first, _⟩, _⟩ := agree.superclassFirstOrder_topological once
  exact ⟨agree, once, by decide +kernel, placed, waiting, split, first⟩

end Model

end ClassModel
