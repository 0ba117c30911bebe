import ClassModel.Inheritance.Subclasses
import ClassModel.Model.Script
import ClassModel.Proofs.Inheritance.Links
import Mathlib.Data.Fintype.Card
import Mathlib.Data.List.Nodup

/-! Repair of cyclic generalization.

The walk to the subclasses is followed without its bound on levels. What it does below one entity is
an outcome: which links of the entities on the way it leaves alone, what it keeps in sight, and what
a second walk does. Outcomes are put together child by child.
-/

set_option autoImplicit false

namespace ClassModel

namespace SubclassWalk

theorem mem_found_find (walk : SubclassWalk) (child asked : EntityId) :
    asked ∈ (walk.find child).found ↔ asked ∈ walk.found ∨ child = asked := by
  unfold find
  split
  · rename_i present
    constructor
    · exact .inl
    · rintro (found | rfl)
      · exact found
      · exact present
  · simp [eq_comm]

theorem nodup_found_find (walk : SubclassWalk) (child : EntityId) (once : walk.found.Nodup) :
    (walk.find child).found.Nodup := by
  unfold find
  split
  · exact once
  · rename_i absent
    refine List.nodup_append.mpr ⟨once, by simp, ?_⟩
    intro found present added new same
    obtain rfl := List.mem_singleton.mp new
    exact absent (same ▸ present)

/-! ## The walk without a bound -/

/-- From one state of the walk to another through some children of a parent. `above` is the way to
the parent. A derivation is finite, so there is a final state only when the walk ends. -/
inductive Explores : (above : List EntityId) → (parent : EntityId) → (children : List EntityId) →
    (walk final : SubclassWalk) → Prop where
  | done {above : List EntityId} {parent : EntityId} {walk : SubclassWalk} :
      Explores above parent [] walk walk
  | cut {above : List EntityId} {parent child : EntityId} {rest : List EntityId}
      {walk final : SubclassWalk} :
      child ∈ parent :: above →
      Explores above parent rest (walk.cut parent child) final →
      Explores above parent (child :: rest) walk final
  | enter {above : List EntityId} {parent child : EntityId} {rest : List EntityId}
      {walk next final : SubclassWalk} :
      child ∉ parent :: above →
      Explores (parent :: above) child (walk.model.children child) (walk.find child) next →
      Explores above parent rest next final →
      Explores above parent (child :: rest) walk final

namespace Explores

variable {above children : List EntityId} {parent : EntityId} {walk final : SubclassWalk}

theorem deterministic (explored : Explores above parent children walk final)
    {other : SubclassWalk} (again : Explores above parent children walk other) : final = other := by
  induction explored generalizing other with
  | done =>
    cases again
    rfl
  | cut onWay _ ih =>
    cases again with
    | cut _ later => exact ih later
    | enter offWay _ _ => exact absurd onWay offWay
  | enter offWay _ _ ihBelow ihLater =>
    cases again with
    | cut onWay _ => exact absurd onWay offWay
    | enter _ below later =>
      obtain rfl := ihBelow below
      exact ihLater later

-- The only links that are cut are those the walk has met, in the model or in the list it goes
-- through. The list matters: it may name children that have been cut off since.
theorem cuts (explored : Explores above parent children walk final) :
    ∃ links, Cut links walk.model final.model ∧
      ∀ upper lower, (upper, lower) ∈ links →
        walk.model.Down upper lower ∨ upper = parent ∧ lower ∈ children := by
  induction explored with
  | done => exact ⟨[], .nothing _, by simp⟩
  | @cut above parent child rest walk final onWay later ih =>
    obtain ⟨links, gone, met⟩ := ih
    have first := cut_removeGeneralization walk.model parent child
    refine ⟨(parent, child) :: links, first.trans gone, ?_⟩
    intro upper lower link
    rcases List.mem_cons.mp link with same | further
    · cases same
      exact .inr ⟨rfl, List.mem_cons_self⟩
    · rcases met upper lower further with listed | ⟨rfl, waiting⟩
      · exact .inl (first.fewer upper lower listed)
      · exact .inr ⟨rfl, List.mem_cons_of_mem _ waiting⟩
  | @enter above parent child rest walk next final offWay below later ihBelow ihLater =>
    obtain ⟨links, gone, met⟩ := ihBelow
    obtain ⟨further, goneLater, metLater⟩ := ihLater
    rw [find_model] at gone
    refine ⟨links ++ further, gone.trans goneLater, ?_⟩
    intro upper lower link
    rcases List.mem_append.mp link with earlier | later
    · rcases met upper lower earlier with listed | ⟨rfl, listed⟩
      · exact .inl (by simpa using listed)
      · exact .inl listed
    · rcases metLater upper lower later with listed | ⟨rfl, waiting⟩
      · exact .inl (gone.fewer upper lower listed)
      · exact .inr ⟨rfl, List.mem_cons_of_mem _ waiting⟩

theorem fewer (explored : Explores above parent children walk final) (upper lower : EntityId)
    (link : final.model.Down upper lower) : walk.model.Down upper lower := by
  obtain ⟨_, gone, _⟩ := explored.cuts
  exact gone.fewer upper lower link

theorem count (explored : Explores above parent children walk final) :
    final.model.entityCount = walk.model.entityCount := by
  obtain ⟨_, gone, _⟩ := explored.cuts
  exact gone.same.count

end Explores

/-- There are levels left for all entities that are not on the way. -/
structure Room (levels : Nat) (way : List EntityId) (model : Model) : Prop where
  once : way.Nodup
  inside : ∀ id ∈ way, model.HasEntity id
  known : ∀ upper lower, model.Down upper lower → model.HasEntity lower
  enough : model.entityCount < levels + way.length

namespace Room

variable {levels : Nat} {way : List EntityId} {model : Model}

theorem some_left (room : Room levels way model) : levels ≠ 0 := by
  have bound := Model.length_le_entityCount room.once room.inside
  have enough := room.enough
  omega

theorem fewer (room : Room levels way model) {after : Model}
    (fewer : ∀ upper lower, after.Down upper lower → model.Down upper lower)
    (count : after.entityCount = model.entityCount) : Room levels way after where
  once := room.once
  inside id member := by
    have inside := room.inside id member
    simpa [Model.HasEntity, count] using inside
  known upper lower link := by
    have known := room.known upper lower (fewer upper lower link)
    simpa [Model.HasEntity, count] using known
  enough := by
    have enough := room.enough
    omega

theorem enter (room : Room (levels + 1) way model) {child : EntityId}
    (existing : model.HasEntity child) (offWay : child ∉ way) :
    Room levels (child :: way) model where
  once := List.nodup_cons.mpr ⟨offWay, room.once⟩
  inside id member := by
    rcases List.mem_cons.mp member with rfl | above
    · exact existing
    · exact room.inside id above
  known := room.known
  enough := by
    have enough := room.enough
    rw [List.length_cons]
    omega

end Room

-- With enough room the bound on levels is never felt.
theorem explores_visit (levels : Nat) (above : List EntityId) (parent : EntityId)
    (walk : SubclassWalk) (room : Room levels (parent :: above) walk.model) :
    Explores above parent (walk.model.children parent) walk
      (visit levels (parent :: above) walk parent) := by
  induction levels generalizing above parent walk with
  | zero => exact absurd rfl room.some_left
  | succ levels ih =>
    unfold visit
    have existing : ∀ child ∈ walk.model.children parent, walk.model.HasEntity child :=
      fun child listed => room.known parent child listed
    -- The list stays the one the walk found at the parent, while the model changes.
    generalize walk.model.children parent = children at existing
    induction children generalizing walk with
    | nil => exact .done
    | cons child rest ihRest =>
      rw [List.foldl_cons]
      by_cases onWay : child ∈ parent :: above
      · rw [if_pos onWay]
        have gone := cut_removeGeneralization walk.model parent child
        refine .cut onWay (ihRest _ (room.fewer gone.fewer gone.same.count) ?_)
        intro other waiting
        have known := existing other (List.mem_cons_of_mem _ waiting)
        simpa [Model.HasEntity, cut, gone.same.count] using known
      · rw [if_neg onWay]
        have entered : Room levels (child :: parent :: above) (walk.find child).model := by
          rw [find_model]
          exact room.enter (existing child List.mem_cons_self) onWay
        have below := ih _ _ _ entered
        have fewer := below.fewer
        have count := below.count
        rw [find_model] at below fewer count
        refine .enter onWay below (ihRest _ (room.fewer fewer count) ?_)
        intro other waiting
        have known := existing other (List.mem_cons_of_mem _ waiting)
        simpa [Model.HasEntity, count] using known

/-! ## The way -/

/-- The way from the start down to an entity, nearest first, without repeats. -/
inductive Way (model : Model) (start : EntityId) : (above : List EntityId) → EntityId → Prop where
  | start : Way model start [] start
  | down {above : List EntityId} {parent child : EntityId} :
      Way model start above parent → model.Down parent child → child ∉ parent :: above →
      Way model start (parent :: above) child

namespace Way

variable {model : Model} {start parent : EntityId} {above : List EntityId}

theorem parent_not_above (way : Way model start above parent) : parent ∉ above := by
  cases way with
  | start => simp
  | down _ _ offWay => exact offWay

theorem reached (way : Way model start above parent) :
    ∀ id ∈ parent :: above, model.Reaches start id := by
  induction way with
  | start => simp [Model.Reaches, Relation.ReflTransGen.refl]
  | @down above parent child way link _ ih =>
    intro id member
    rcases List.mem_cons.mp member with rfl | earlier
    · exact (ih parent List.mem_cons_self).tail link
    · exact ih id earlier

theorem reaches (way : Way model start above parent) :
    ∀ id ∈ parent :: above, model.Reaches id parent := by
  induction way with
  | start => simp [Model.Reaches, Relation.ReflTransGen.refl]
  | @down above parent child way link _ ih =>
    intro id member
    rcases List.mem_cons.mp member with rfl | earlier
    · exact .refl
    · exact (ih id earlier).tail link

-- A way stays a way as long as the children of the entities above stay the same.
theorem kept (way : Way model start above parent) {after : Model}
    (same : ∀ upper ∈ above, after.children upper = model.children upper) :
    Way after start above parent := by
  induction way with
  | start => exact .start
  | @down above parent child way link offWay ih =>
    refine .down (ih fun upper member => same upper (List.mem_cons_of_mem _ member)) ?_ offWay
    rw [Model.Down, same parent List.mem_cons_self]
    exact link

-- The parent is not above itself, so a cut below it touches nothing above.
theorem children_cut {walk : SubclassWalk} (way : Way walk.model start above parent)
    (child : EntityId) : ∀ upper ∈ above,
      (walk.cut parent child).model.children upper = walk.model.children upper := by
  intro upper member
  have other : upper ≠ parent := fun same => way.parent_not_above (same ▸ member)
  exact (walk.model.children_removeGeneralization parent child upper).trans (if_neg other)

end Way

/-! ## What exploring achieves -/

/-- The children that are not on the way. -/
def entered (way children : List EntityId) : List EntityId := children.filter (· ∉ way)

theorem entered_cons_of_mem {way rest : List EntityId} {child : EntityId} (onWay : child ∈ way) :
    entered way (child :: rest) = entered way rest := by
  simp [entered, onWay]

theorem entered_cons_of_not_mem {way rest : List EntityId} {child : EntityId}
    (offWay : child ∉ way) : entered way (child :: rest) = child :: entered way rest := by
  simp [entered, offWay]

/-- What becomes of the walk between two states, when it goes through some children of a parent. -/
structure Outcome (start : EntityId) (above : List EntityId) (parent : EntityId)
    (children : List EntityId) (walk final : SubclassWalk) : Prop where
  frame : ∀ upper ∈ above, final.model.children upper = walk.model.children upper
  /-- The parent loses exactly the children on the way. -/
  own : final.model.children parent = (walk.model.children parent).filter fun child =>
    child ∉ children ∨ child ∉ parent :: above
  fewer : ∀ upper lower, final.model.Down upper lower → walk.model.Down upper lower
  /-- Links are cut on cycles only. -/
  kept : ∀ id, ¬ walk.model.OnCycle id → final.model.children id = walk.model.children id
  inSight : ∀ id, walk.model.Reaches start id → final.model.Reaches start id
  /-- Below the children that are entered, nothing leads back. -/
  clear : ∀ child ∈ entered (parent :: above) children, ∀ id, final.model.Reaches child id →
    id ∉ parent :: above ∧ ¬ final.model.OnCycle id
  found : ∀ id, id ∈ final.found ↔
    id ∈ walk.found ∨ ∃ child ∈ entered (parent :: above) children, final.model.Reaches child id
  once : walk.found.Nodup → final.found.Nodup
  /-- On any model that looks the same below, going through the children again finds the same and
  changes nothing. -/
  again : ∀ (model : Model) (findings : List Diagnostic),
    (∀ child ∈ entered (parent :: above) children, ∀ id, final.model.Reaches child id →
      model.children id = final.model.children id) →
    Explores above parent (entered (parent :: above) children)
      ⟨model, walk.found, findings⟩ ⟨model, final.found, findings⟩

namespace Outcome

variable {start parent child : EntityId} {above rest : List EntityId}
  {walk next final : SubclassWalk}

theorem done : Outcome start above parent [] walk walk where
  frame _ _ := rfl
  own := by simp
  fewer _ _ link := link
  kept _ _ := rfl
  inSight _ reached := reached
  clear := by simp [entered]
  found := by simp [entered]
  once once := once
  again _ _ _ := .done

-- A child on the way is cut off. It stays in sight, since the way to it is left alone.
theorem cut (way : Way walk.model start above parent) (onWay : child ∈ parent :: above)
    (later : Outcome start above parent rest (walk.cut parent child) final) :
    Outcome start above parent (child :: rest) walk final := by
  have gone := cut_removeGeneralization walk.model parent child
  have children := walk.model.children_removeGeneralization parent child
  have frame := way.children_cut child
  exact {
    frame := fun upper member => (later.frame upper member).trans (frame upper member)
    own := by
      have listed : (walk.cut parent child).model.children parent =
          (walk.model.children parent).filter (· != child) := (children parent).trans (if_pos rfl)
      rw [later.own, listed, List.filter_filter]
      refine List.filter_congr fun other _ => ?_
      by_cases same : other = child
      · subst same
        simp [onWay]
      · simp [same]
    fewer := fun upper lower link => gone.fewer upper lower (later.fewer upper lower link)
    kept := by
      intro id free
      rw [later.kept id fun cycle => free (cycle.mono gone.fewer)]
      refine (children id).trans ?_
      split
      · rename_i named
        subst named
        refine List.filter_eq_self.mpr fun listed member => ?_
        -- Were the child among the children, the parent would be on a cycle through it.
        have other : listed ≠ child := by
          rintro rfl
          exact free (.head' member (way.reaches listed onWay))
        simpa using other
      · rfl
    inSight := by
      intro id reached
      refine later.inSight id (Model.Reaches.of_kept ?_ reached)
      intro upper lower link
      by_cases same : (upper, lower) = (parent, child)
      · cases same
        exact .inr ((way.kept frame).reached child onWay)
      · exact .inl ((gone.down_iff upper lower).mpr ⟨link, by simpa using same⟩)
    clear := by
      rw [entered_cons_of_mem onWay]
      exact later.clear
    found := by
      rw [entered_cons_of_mem onWay]
      exact later.found
    once := later.once
    again := by
      rw [entered_cons_of_mem onWay]
      exact later.again }

theorem own_all (outcome : Outcome start above parent (walk.model.children parent) walk final) :
    final.model.children parent = entered (parent :: above) (walk.model.children parent) := by
  rw [outcome.own]
  refine List.filter_congr fun child member => ?_
  simp [member]

-- A cycle below would pass a child that was entered, or come back to the parent from one.
theorem below (way : Way walk.model start above parent)
    (outcome : Outcome start above parent (walk.model.children parent) walk final) (id : EntityId)
    (reached : final.model.Reaches parent id) : id ∉ above ∧ ¬ final.model.OnCycle id := by
  rcases (final.model.reaches_iff parent id).mp reached with rfl | ⟨child, link, further⟩
  · refine ⟨way.parent_not_above, fun cycle => ?_⟩
    obtain ⟨child, link, back⟩ := Relation.TransGen.head'_iff.mp cycle
    rw [Model.Down, outcome.own_all] at link
    exact (outcome.clear child link _ back).1 List.mem_cons_self
  · rw [Model.Down, outcome.own_all] at link
    obtain ⟨offWay, free⟩ := outcome.clear child link id further
    exact ⟨fun member => offWay (List.mem_cons_of_mem _ member), free⟩

theorem found_all (outcome : Outcome start above parent (walk.model.children parent) walk final)
    (id : EntityId) : id ∈ final.found ↔
      id ∈ walk.found ∨ ∃ child, final.model.Down parent child ∧ final.model.Reaches child id := by
  rw [outcome.found, ← outcome.own_all]
  rfl

-- A child that is not on the way is entered first, and what is below it stays as it is.
theorem enter (way : Way walk.model start above parent) (link : walk.model.Down parent child)
    (offWay : child ∉ parent :: above)
    (earlier : Outcome start (parent :: above) child (walk.model.children child) (walk.find child)
      next)
    (later : Outcome start above parent rest next final) :
    Outcome start above parent (child :: rest) walk final := by
  have entering : Way (walk.find child).model start (parent :: above) child := by
    rw [find_model]
    exact .down way link offWay
  have fewer := earlier.fewer
  have kept := earlier.kept
  have inSight := earlier.inSight
  have frame := earlier.frame
  rw [find_model] at fewer kept inSight frame
  rw [← find_model walk child] at earlier
  have below := earlier.below entering
  -- Nothing below the child is on a cycle any more, and later links are cut on cycles only.
  have still : ∀ id, next.model.Reaches child id →
      final.model.children id = next.model.children id :=
    fun id reached => later.kept id (below id reached).2
  have reaches : ∀ id, final.model.Reaches child id ↔ next.model.Reaches child id :=
    Model.Reaches.congr still
  exact {
    frame := fun upper member =>
      (later.frame upper member).trans (frame upper (List.mem_cons_of_mem _ member))
    own := by
      rw [later.own, frame parent List.mem_cons_self]
      refine List.filter_congr fun other _ => ?_
      by_cases same : other = child
      · subst same
        simp [offWay]
      · simp [same]
    fewer := fun upper lower link => fewer upper lower (later.fewer upper lower link)
    kept := by
      intro id free
      rw [later.kept id fun cycle => free (cycle.mono fewer)]
      exact kept id free
    inSight := fun id reached => later.inSight id (inSight id reached)
    clear := by
      rw [entered_cons_of_not_mem offWay]
      intro first member id reached
      rcases List.mem_cons.mp member with rfl | waiting
      · obtain ⟨offWay, free⟩ := below id ((reaches id).mp reached)
        exact ⟨offWay, fun cycle => free (cycle.mono later.fewer)⟩
      · exact later.clear first waiting id reached
    found := by
      intro id
      rw [entered_cons_of_not_mem offWay, later.found, earlier.found_all, mem_found_find,
        List.exists_mem_cons_iff, reaches, next.model.reaches_iff child id]
      simp only [or_assoc]
    once := fun once => later.once (earlier.once (walk.nodup_found_find child once))
    again := by
      intro model findings same
      rw [entered_cons_of_not_mem offWay] at same ⊢
      have sameBelow : ∀ id, next.model.Reaches child id →
          model.children id = next.model.children id := fun id reached =>
        (same child List.mem_cons_self id ((reaches id).mpr reached)).trans (still id reached)
      have found : SubclassWalk.find ⟨model, walk.found, findings⟩ child =
          ⟨model, (walk.find child).found, findings⟩ := by
        unfold find
        split <;> rfl
      refine .enter offWay ?_ (later.again model findings fun first waiting =>
        same first (List.mem_cons_of_mem _ waiting))
      -- Now the child lists just those of its children that were entered before.
      rw [found, sameBelow child .refl, earlier.own_all]
      refine earlier.again model findings fun lower member id reached => ?_
      refine sameBelow id (.head ?_ reached)
      rw [Model.Down, earlier.own_all]
      exact member }

end Outcome

-- The induction is on the walk. What carries it: the way to the parent stays a way, and the
-- children still to be entered are still its children.
theorem Explores.outcome {start parent : EntityId} {above children : List EntityId}
    {walk final : SubclassWalk} (explored : Explores above parent children walk final)
    (way : Way walk.model start above parent)
    (listed : ∀ child ∈ entered (parent :: above) children, walk.model.Down parent child) :
    Outcome start above parent children walk final := by
  induction explored with
  | done => exact .done
  | @cut above parent child rest walk final onWay _ ih =>
    rw [entered_cons_of_mem onWay] at listed
    have gone := cut_removeGeneralization walk.model parent child
    refine .cut way onWay (ih (way.kept (way.children_cut child)) fun other waiting => ?_)
    refine (gone.down_iff parent other).mpr ⟨listed other waiting, ?_⟩
    have offWay : other ∉ parent :: above := by simpa using (List.mem_filter.mp waiting).2
    intro cutOff
    cases List.mem_singleton.mp cutOff
    exact offWay onWay
  | @enter above parent child rest walk next final offWay _ _ ihBelow ihLater =>
    rw [entered_cons_of_not_mem offWay] at listed
    have link := listed child List.mem_cons_self
    have earlier := ihBelow (by
      rw [find_model]
      exact .down way link offWay) (by
      rw [find_model]
      exact fun lower member => List.mem_of_mem_filter member)
    have frame := earlier.frame
    rw [find_model] at frame
    refine .enter way link offWay earlier (ihLater (way.kept fun upper member => ?_)
      fun other waiting => ?_)
    · exact frame upper (List.mem_cons_of_mem _ member)
    · rw [Model.Down, frame parent List.mem_cons_self]
      exact listed other (List.mem_cons_of_mem _ waiting)

end SubclassWalk

theorem Model.explores_allSubclasses (model : Model) (agree : model.LinksAgree) (id : EntityId) :
    SubclassWalk.Explores [] id (model.children id) { model } (model.allSubclasses id) := by
  by_cases existing : model.HasEntity id
  · refine SubclassWalk.explores_visit model.entityCount [] id { model } ⟨?_, ?_, ?_, ?_⟩
    · simp
    · simpa using existing
    · exact fun upper lower link => agree.hasEntity link
    · simp
  · have childless : model.children id = [] := by
      simp [children, entityAt_of_not_hasEntity _ _ existing, default, Entity.named]
    have still : model.allSubclasses id = { model } := by
      unfold allSubclasses
      cases model.entityCount <;> simp [SubclassWalk.visit, childless]
    rw [still, childless]
    exact .done

/-- What a repair of the cycles below an entity achieves. -/
structure Repaired (model : Model) (id : EntityId) (walk : SubclassWalk) : Prop where
  ended : SubclassWalk.Explores [] id (model.children id) { model } walk
  once : walk.found.Nodup
  covers : ∀ entity, entity ∈ walk.found ↔ entity ≠ id ∧ model.Reaches id entity
  cuts : ∃ links, Cut links model walk.model ∧
    ∀ parent child, (parent, child) ∈ links → model.Down parent child
  agree : walk.model.LinksAgree
  inSight : ∀ entity, walk.model.Reaches id entity ↔ model.Reaches id entity
  acyclic : ∀ entity, walk.model.Reaches id entity → ¬ walk.model.OnCycle entity
  unneeded : (∀ entity, model.Reaches id entity → ¬ model.OnCycle entity) →
    walk.model = model ∧ walk.findings = []
  /-- A second walk finds the same and has nothing to repair. -/
  settled : walk.model.allSubclasses id =
    { model := walk.model, found := walk.found, findings := [] }

theorem Model.allSubclasses_repaired (model : Model) (agree : model.LinksAgree) (id : EntityId) :
    Repaired model id (model.allSubclasses id) := by
  have explored := model.explores_allSubclasses agree id
  generalize model.allSubclasses id = walk at explored
  have atStart : SubclassWalk.Way model id [] id := .start
  have outcome : SubclassWalk.Outcome id [] id ((SubclassWalk.mk model [] []).model.children id)
      { model } walk :=
    explored.outcome atStart fun child member => List.mem_of_mem_filter member
  have own := outcome.own_all
  have below := outcome.below atStart
  have inSight : ∀ entity, walk.model.Reaches id entity ↔ model.Reaches id entity :=
    fun entity => ⟨fun reached => reached.mono outcome.fewer, outcome.inSight entity⟩
  obtain ⟨links, gone, met⟩ := explored.cuts
  have agreeAfter := gone.linksAgree agree
  exact {
    ended := explored
    once := outcome.once List.nodup_nil
    covers := by
      intro entity
      rw [← inSight, outcome.found_all, walk.model.reaches_iff id entity]
      constructor
      · rintro (none | ⟨child, link, reached⟩)
        · cases none
        · refine ⟨?_, .inr ⟨child, link, reached⟩⟩
          rintro rfl
          exact (below entity .refl).2 (.head' link reached)
      · rintro ⟨other, rfl | down⟩
        · exact absurd rfl other
        · exact .inr down
    cuts := by
      refine ⟨links, gone, fun parent child link => ?_⟩
      rcases met parent child link with listed | ⟨rfl, listed⟩
      · exact listed
      · exact listed
    agree := agreeAfter
    inSight := inSight
    acyclic := fun entity reached => (below entity reached).2
    unneeded := by
      intro free
      have all : SubclassWalk.entered [id] (model.children id) = model.children id := by
        refine List.filter_eq_self.mpr fun child member => ?_
        have other : child ≠ id := by
          rintro rfl
          exact free child .refl (.single member)
        simpa using other
      -- What is in reach was kept as it was, so the walk can be repeated on the model itself.
      have again := outcome.again model [] fun child member entity reached => by
        have listed : model.Down id child := List.mem_of_mem_filter member
        have seen : model.Reaches id entity := .head listed (reached.mono outcome.fewer)
        exact (outcome.kept entity (free entity seen)).symm
      rw [all] at again
      rw [explored.deterministic again]
      exact ⟨rfl, rfl⟩
    settled := by
      have again := outcome.again walk.model [] fun _ _ _ _ => rfl
      have second := walk.model.explores_allSubclasses agreeAfter id
      rw [own] at second
      exact second.deterministic again }

/-- A base with two subclasses, which share a subclass that is above the base again. -/
def knot : Model :=
  [Edit.insertEntity (.named "Base"), .insertEntity (.named "Left"), .insertEntity (.named "Right"),
    .insertEntity (.named "Joint"), .setSuperclass ⟨1⟩ (some ⟨0⟩), .setSuperclass ⟨2⟩ (some ⟨0⟩),
    .setSuperclass ⟨3⟩ (some ⟨1⟩), .addParent ⟨3⟩ ⟨2⟩, .setSuperclass ⟨0⟩ (some ⟨3⟩)].foldl
    Edit.apply .empty

theorem allSubclasses_knot : knot.LinksAgree ∧ (knot.allSubclasses ⟨0⟩).findings ≠ [] ∧
    Repaired knot ⟨0⟩ (knot.allSubclasses ⟨0⟩) :=
  ⟨by decide, by decide, knot.allSubclasses_repaired (by decide) ⟨0⟩⟩

end ClassModel
