import ClassModel.Proofs.Copies.Isolation

/-! Copied hierarchies: copies are linked as their originals are.

A copy gets its parents when it is its turn, and keeps them. Children need no account of their own,
since the two ends of a link agree wherever a model can get.
-/

set_option autoImplicit false

namespace ClassModel.Model

/-! ## Bare copies -/

/-- A copy that has nothing but attributes. -/
def CopyBare (model : Model) (_original copy : EntityId) : Prop :=
  (model.entityAt copy).withoutAttributes.IsBare

theorem keptByGrowth_copyBare : KeptByGrowth CopyBare := by
  intro before after original copy existing kept bare
  rw [CopyBare, kept.entityAt existing]
  exact bare

section

variable (start : Model)

theorem copiesAs_bare_flattenedCopy (policy : PathPolicy) (depth : Nat) :
    start.CopiesAs (fun model id => model.flattenedCopy policy id depth) CopyBare := by
  intro model original kept existing
  have inserted := model.inserted_flattenedCopy policy original depth
  refine ⟨_, _, ?_, ?_, ?_, inserted, ?_⟩
  · rfl
  · exact kept.name existing
  · rfl
  · rw [CopyBare, inserted.entity]
    constructor <;> rfl

theorem copiesAs_bare_targetCopy :
    start.CopiesAs (fun model id => pure (model.targetCopy id)) CopyBare := by
  intro model original kept existing
  have inserted := model.inserted_targetCopy original
  refine ⟨_, _, ?_, ?_, ?_, inserted, ?_⟩
  · rfl
  · exact kept.name existing
  · rfl
  · show ((model.targetCopy original).entityAt model.nextEntity).withoutAttributes.IsBare
    rw [inserted.entity]
    constructor <;> rfl

end

/-! ## Parents of an edited entity -/

theorem allParents_eq_nil_iff (model : Model) (id : EntityId) : model.allParents id = [] ↔
    model.superclass id = none ∧ (model.entityAt id).parents = [] := by
  simp [allParents, Entity.allParents, superclass]

section

variable (model : Model) (child parent asked : EntityId)

theorem parents_clearSuperclass : ((model.clearSuperclass child).entityAt asked).parents =
    (model.entityAt asked).parents := by
  cases named : model.superclass child with
  | none => simp [clearSuperclass, named]
  | some old =>
    rw [model.clearSuperclass_of_some named]
    split
    · exact parents_nameSuperclass _ _ _
    · rw [parents_unlistChild, parents_nameSuperclass]

theorem parents_setSuperclass : ((model.setSuperclass child (some parent)).entityAt asked).parents =
    (model.entityAt asked).parents := by
  show (((nameSuperclass _ child _).listChild parent child).entityAt asked).parents = _
  rw [parents_listChild, parents_nameSuperclass, parents_clearSuperclass]

theorem superclass_addParent :
    (model.addParent child parent).superclass asked = model.superclass asked := by
  unfold addParent
  split
  · rfl
  · rw [superclass_listChild]
    exact part_modifyEntity Entity.superclass model child asked _ fun _ => rfl

variable {model child}

theorem superclass_setSuperclass (existing : model.HasEntity child) :
    (model.setSuperclass child (some parent)).superclass asked =
      if asked = child then some parent else model.superclass asked := by
  have there : (model.clearSuperclass child).HasEntity child :=
    Nat.lt_of_lt_of_eq existing (model.sameButLinks_clearSuperclass child).count.symm
  show ((nameSuperclass _ child _).listChild parent child).superclass asked = _
  rw [superclass_listChild, superclass_nameSuperclass _ _ _ there, superclass_clearSuperclass]
  split <;> rfl

theorem mem_allParents_addParent (existing : model.HasEntity child) (named : EntityId) :
    named ∈ (model.addParent child parent).allParents asked ↔
      named ∈ model.allParents asked ∨ asked = child ∧ named = parent := by
  unfold addParent
  split
  · rename_i twice
    refine ⟨.inl, ?_⟩
    rintro (before | ⟨rfl, rfl⟩)
    · exact before
    · exact twice
  · rw [mem_allParents, superclass_listChild, parents_listChild, superclass,
      entityAt_modifyEntity, mem_allParents, superclass]
    by_cases here : child = asked
    · subst here
      rw [if_pos ⟨rfl, existing⟩]
      simp [or_assoc]
    · have other : asked ≠ child := fun same => here same.symm
      simp [here, other]

variable (parents : List EntityId)

theorem superclass_foldl_addParent :
    (parents.foldl (addParent · child) model).superclass asked = model.superclass asked := by
  induction parents generalizing model with
  | nil => rfl
  | cons first rest ih => exact ih.trans (model.superclass_addParent child first asked)

theorem mem_allParents_foldl_addParent (existing : model.HasEntity child) (named : EntityId) :
    named ∈ (parents.foldl (addParent · child) model).allParents asked ↔
      named ∈ model.allParents asked ∨ asked = child ∧ named ∈ parents := by
  induction parents generalizing model with
  | nil => simp
  | cons first rest ih =>
    have there : (model.addParent child first).HasEntity child :=
      Nat.lt_of_lt_of_eq existing (model.sameButLinks_addParent child first).count.symm
    rw [List.foldl_cons, ih there, mem_allParents_addParent first asked existing, List.mem_cons]
    rw [or_assoc, ← and_or_left]

end

/-! ## Copying parents -/

/-- A copy has the copies of its original's parents, and no other parents. -/
structure ParentsCopied (start : Model) (copies : EntityCopies) (model : Model)
    (original copy : EntityId) : Prop where
  superclass : model.superclass copy = (start.superclass original).bind copies.copyOf?
  parents : ∀ parentCopy, parentCopy ∈ model.allParents copy ↔
    ∃ parent ∈ start.allParents original, copies.copyOf? parent = some parentCopy

theorem ParentsCopied.sameLinks {start before after : Model} {copies : EntityCopies}
    {original copy : EntityId} (copied : ParentsCopied start copies before original copy)
    (same : SameLinks before after) : ParentsCopied start copies after original copy where
  superclass := (congrArg Prod.fst (same copy)).trans copied.superclass
  parents parentCopy := by
    have named : after.allParents copy = before.allParents copy :=
      congrArg (fun links => links.1.toList ++ links.2.1) (same copy)
    rw [named]
    exact copied.parents parentCopy

/-- The model in which an entity has been given a primary parent, if there is one for it. -/
def withPrimary (model : Model) (child : EntityId) : Option EntityId → Model
  | none => model
  | some parent => model.setSuperclass child (some parent)

section

variable {model : Model} {copy : EntityId} (parent? : Option EntityId)

theorem hasEntity_withPrimary (existing : model.HasEntity copy) :
    (model.withPrimary copy parent?).HasEntity copy := by
  cases parent? with
  | none => exact existing
  | some parent =>
    exact Nat.lt_of_lt_of_eq existing (model.sameButLinks_setSuperclass copy (some parent)).count.symm

theorem superclass_withPrimary (existing : model.HasEntity copy)
    (orphan : model.superclass copy = none) (asked : EntityId) :
    (model.withPrimary copy parent?).superclass asked =
      if asked = copy then parent? else model.superclass asked := by
  cases parent? with
  | none =>
    split
    · rename_i here
      exact here ▸ orphan
    · rfl
  | some parent => exact superclass_setSuperclass parent asked existing

theorem parents_withPrimary (asked : EntityId) :
    ((model.withPrimary copy parent?).entityAt asked).parents = (model.entityAt asked).parents := by
  cases parent? with
  | none => rfl
  | some parent => exact model.parents_setSuperclass copy parent asked

end

section

variable {copies : EntityCopies} {model : Model} {original copy : EntityId}

theorem value_copyParents (found : copies.copyOf? original = some copy) :
    (copyParents copies model original).value =
      ((model.entityAt original).parents.filterMap copies.copyOf?).foldl (addParent · copy)
        (model.withPrimary copy ((model.superclass original).bind copies.copyOf?)) := by
  have target : copies.retarget original = copy := by simp [EntityCopies.retarget, found]
  unfold copyParents
  rw [Noted.value_map, target, superclass]
  congr 1
  cases (model.entityAt original).superclass with
  | none => rfl
  | some parent =>
    rw [Option.bind_some]
    dsimp only
    cases copies.copyOf? parent <;> rfl

-- An additional parent that is the primary one as well is not added again, and stays a parent.
theorem parentsCopied_copyParents (found : copies.copyOf? original = some copy)
    (existing : model.HasEntity copy) (free : model.allParents copy = []) :
    ParentsCopied model copies (copyParents copies model original).value original copy := by
  obtain ⟨orphan, alone⟩ := (model.allParents_eq_nil_iff copy).mp free
  have there := hasEntity_withPrimary ((model.superclass original).bind copies.copyOf?) existing
  have primary := superclass_withPrimary ((model.superclass original).bind copies.copyOf?) existing
    orphan copy
  rw [if_pos rfl] at primary
  constructor
  case superclass => rw [value_copyParents found, superclass_foldl_addParent, primary]
  case parents =>
    intro parentCopy
    rw [value_copyParents found, mem_allParents_foldl_addParent _ _ there, mem_allParents, primary,
      parents_withPrimary, alone, List.mem_filterMap, Option.bind_eq_some_iff]
    simp only [List.not_mem_nil, or_false, true_and, mem_allParents]
    constructor
    · rintro (⟨parent, named, copied⟩ | ⟨parent, listed, copied⟩)
      · exact ⟨parent, .inl named, copied⟩
      · exact ⟨parent, .inr listed, copied⟩
    · rintro ⟨parent, named | listed, copied⟩
      · exact .inl ⟨parent, named, copied⟩
      · exact .inr ⟨parent, listed, copied⟩

-- Nobody else's parents change.
theorem copyParents_other (found : copies.copyOf? original = some copy)
    (existing : model.HasEntity copy) (orphan : model.superclass copy = none) {other : EntityId}
    (different : other ≠ copy) :
    (copyParents copies model original).value.superclass other = model.superclass other ∧
      ∀ named, named ∈ (copyParents copies model original).value.allParents other ↔
        named ∈ model.allParents other := by
  have there := hasEntity_withPrimary ((model.superclass original).bind copies.copyOf?) existing
  have primary := superclass_withPrimary ((model.superclass original).bind copies.copyOf?) existing
    orphan other
  rw [if_neg different] at primary
  rw [value_copyParents found]
  refine ⟨(superclass_foldl_addParent _ _).trans primary, fun named => ?_⟩
  rw [mem_allParents_foldl_addParent _ _ there, mem_allParents, primary, parents_withPrimary,
    mem_allParents]
  simp [different]

end

/-! ## One original after another -/

/-- The copies of the originals that are done have their parents, and the others have none yet. -/
structure InheritanceCopied (start : Model) (copies : EntityCopies) (done : List EntityId)
    (model : Model) : Prop where
  apart : GrownApart start model
  there : ∀ original copy, copies.copyOf? original = some copy → model.HasEntity copy
  copied : ∀ original ∈ done, ∀ copy, copies.copyOf? original = some copy →
    ParentsCopied start copies model original copy
  waiting : ∀ original, original ∉ done → ∀ copy, copies.copyOf? original = some copy →
    model.allParents copy = []

section

variable {start : Model} {fact : Model → EntityId → EntityId → Prop} {order : List EntityId}
  {state : Copying} (made : CopiesMade start fact order state)

include made

theorem CopiesMade.isCopy {original copy : EntityId}
    (found : state.copies.copyOf? original = some copy) :
    original ∈ order ∧ IsCopy start state.model original copy ∧ fact state.model original copy :=
  made.copies _ (EntityCopies.mem_of_copyOf? found)

-- A copy remembers its original.
theorem CopiesMade.distinct {first second copy : EntityId}
    (found : state.copies.copyOf? first = some copy)
    (foundToo : state.copies.copyOf? second = some copy) : first = second :=
  Option.some.inj ((made.isCopy found).2.1.copyOf.symm.trans (made.isCopy foundToo).2.1.copyOf)

theorem CopiesMade.mem_originals {original : EntityId} :
    original ∈ state.copies.originals ↔ original ∈ order := by
  constructor
  · intro member
    obtain ⟨copy, found⟩ := EntityCopies.copyOf?_of_mem_originals member
    exact (made.isCopy found).1
  · intro member
    obtain ⟨copy, found⟩ := made.copied original member
    exact List.mem_map_of_mem (EntityCopies.mem_of_copyOf? found)

theorem InheritanceCopied.step (existing : ∀ original ∈ order, start.HasEntity original)
    {done : List EntityId} {model : Model}
    (soFar : InheritanceCopied start state.copies done model) {original : EntityId}
    (member : original ∈ order) (fresh : original ∉ done) :
    InheritanceCopied start state.copies (done ++ [original])
      (copyParents state.copies model original).value := by
  obtain ⟨copy, found⟩ := made.copied original member
  have there := soFar.there original copy found
  have free := soFar.waiting original fresh copy found
  have orphan := ((model.allParents_eq_nil_iff copy).mp free).1
  have carried := carriesLinks_copyParents state.copies model (made.mem_originals.mpr member)
  have others : ∀ other otherCopy, other ≠ original →
      state.copies.copyOf? other = some otherCopy → otherCopy ≠ copy := by
    rintro other otherCopy different foundToo rfl
    exact different (made.distinct foundToo found)
  refine ⟨soFar.apart.carriesLinks made.new carried, fun other otherCopy foundToo => ?there,
    fun other among otherCopy foundToo => ?copied, fun other later otherCopy foundToo => ?waiting⟩
  case there =>
    exact Nat.lt_of_lt_of_eq (soFar.there other otherCopy foundToo) carried.sameButLinks.count.symm
  case copied =>
    by_cases last : other = original
    · subst last
      obtain rfl := Option.some.inj (foundToo.symm.trans found)
      have same : model.entityAt other = start.entityAt other :=
        soFar.apart.kept.entityAt (existing other member)
      obtain ⟨superclass, parents⟩ := parentsCopied_copyParents found there free
      rw [Model.superclass, Model.superclass, same] at superclass
      simp only [allParents, same] at parents
      exact ⟨superclass, parents⟩
    · have earlier : other ∈ done := (List.mem_append.mp among).resolve_right (by simpa using last)
      obtain ⟨superclass, parents⟩ := soFar.copied other earlier otherCopy foundToo
      obtain ⟨sameSuperclass, sameParents⟩ := copyParents_other found there orphan
        (others other otherCopy last foundToo)
      exact ⟨sameSuperclass.trans superclass, fun named => (sameParents named).trans (parents named)⟩
  case waiting =>
    have notDone : other ∉ done := fun early => later (List.mem_append_left _ early)
    have different : other ≠ original := by
      rintro rfl
      exact later (by simp)
    obtain ⟨_, sameParents⟩ := copyParents_other found there orphan
      (others other otherCopy different foundToo)
    refine List.eq_nil_iff_forall_not_mem.mpr fun named listed => ?_
    have before := (sameParents named).mp listed
    rw [soFar.waiting other notDone otherCopy foundToo] at before
    cases before

end

theorem inheritanceCopied_copyInheritances {start : Model} {order : List EntityId} {state : Copying}
    (made : CopiesMade start CopyBare order state)
    (existing : ∀ original ∈ order, start.HasEntity original) :
    InheritanceCopied start state.copies
      (state.model.superclassFirstOrder state.copies.originals)
      (state.model.copyInheritances state.copies).value := by
  show InheritanceCopied _ _ _ (List.foldlM (copyParents state.copies) state.model
    (state.model.superclassFirstOrder state.copies.originals)).value
  rw [Noted.value_foldlM]
  refine foldl_of_nodup (state.model.nodup_superclassFirstOrder _) ⟨made.apart, ?_, ?_, ?_⟩ ?_
  · exact fun original copy found => (made.isCopy found).2.1.there
  · exact fun original early => absurd early List.not_mem_nil
  · intro original _ copy found
    obtain ⟨_, _, bare⟩ := made.isCopy found
    exact (state.model.allParents_eq_nil_iff copy).mpr ⟨bare.superclass, bare.parents⟩
  · intro done original model member fresh soFar
    have among := made.mem_originals.mp (state.model.mem_superclassFirstOrder.mp member)
    exact soFar.step made existing among fresh

/-! ## Whole hierarchies -/

/-- A link between two of the given entities. -/
def DownAmong (model : Model) (entities : List EntityId) (parent child : EntityId) : Prop :=
  model.Down parent child ∧ parent ∈ entities ∧ child ∈ entities

/-- The outcome of copying some entities of a model: every one of them has a new copy of its own, and
the copies are linked among themselves exactly as their originals are. -/
structure HierarchyCopied (start : Model) (entities : List EntityId) (result : Copying) : Prop where
  kept : start.Extends result.model
  copied : ∀ original, original ∈ entities ↔ ∃ copy, result.copies.copyOf? original = some copy
  new : ∀ original copy, result.copies.copyOf? original = some copy →
    ¬ start.HasEntity copy ∧ result.model.HasEntity copy
  distinct : ∀ first second copy, result.copies.copyOf? first = some copy →
    result.copies.copyOf? second = some copy → first = second
  superclass : ∀ original copy, result.copies.copyOf? original = some copy →
    result.model.superclass copy = (start.superclass original).bind result.copies.copyOf?
  parents : ∀ original copy, result.copies.copyOf? original = some copy →
    ∀ parentCopy, parentCopy ∈ result.model.allParents copy ↔
      ∃ parent ∈ start.allParents original, result.copies.copyOf? parent = some parentCopy
  children : ∀ original copy, result.copies.copyOf? original = some copy →
    ∀ childCopy, childCopy ∈ result.model.children copy ↔
      ∃ child ∈ start.children original, result.copies.copyOf? child = some childCopy
  unmixed : ∀ parent child, result.model.Down parent child →
    (start.HasEntity parent ↔ start.HasEntity child)
  cycles : ∀ original copy, result.copies.copyOf? original = some copy →
    (result.model.OnCycle copy ↔ Relation.TransGen (start.DownAmong entities) original original)

section

variable {start after : Model} {copies : EntityCopies} {entities : List EntityId}
  (copied : ∀ original, original ∈ entities ↔ ∃ copy, copies.copyOf? original = some copy)
  (children : ∀ original copy, copies.copyOf? original = some copy →
    ∀ childCopy, childCopy ∈ after.children copy ↔
      ∃ child ∈ start.children original, copies.copyOf? child = some childCopy)
  {first copy : EntityId} (found : copies.copyOf? first = some copy)

include copied children found

-- Below a copy there are copies only, so a walk among copies is one among their originals.
theorem below_of_below_copy {lowest : EntityId} (below : Relation.TransGen after.Down copy lowest) :
    ∃ last, copies.copyOf? last = some lowest ∧
      Relation.TransGen (start.DownAmong entities) first last := by
  have given := (copied first).mpr ⟨copy, found⟩
  induction below with
  | single link =>
    obtain ⟨child, listed, foundToo⟩ := (children first copy found _).mp link
    exact ⟨child, foundToo, .single ⟨listed, given, (copied child).mpr ⟨_, foundToo⟩⟩⟩
  | tail _ link ih =>
    obtain ⟨parent, foundParent, walk⟩ := ih
    obtain ⟨child, listed, foundToo⟩ := (children parent _ foundParent _).mp link
    exact ⟨child, foundToo, walk.tail ⟨listed, (copied parent).mpr ⟨_, foundParent⟩,
      (copied child).mpr ⟨_, foundToo⟩⟩⟩

theorem below_copy_of_below {last : EntityId}
    (below : Relation.TransGen (start.DownAmong entities) first last) :
    ∀ lowest, copies.copyOf? last = some lowest → Relation.TransGen after.Down copy lowest := by
  induction below with
  | single link =>
    intro lowest foundToo
    exact .single ((children first copy found lowest).mpr ⟨_, link.1, foundToo⟩)
  | tail _ link ih =>
    intro lowest foundToo
    obtain ⟨parentCopy, foundParent⟩ := (copied _).mp link.2.1
    exact (ih parentCopy foundParent).tail
      ((children _ parentCopy foundParent lowest).mpr ⟨_, link.1, foundToo⟩)

end

-- What was there has kept its links, so no link joins it with anything new.
theorem Extends.unmixed {start after : Model} (kept : start.Extends after)
    (startAgrees : start.LinksAgree) (afterAgrees : after.LinksAgree) {parent child : EntityId}
    (link : after.Down parent child) : start.HasEntity parent ↔ start.HasEntity child := by
  constructor
  · intro existing
    rw [Down, Model.children, kept.entityAt existing] at link
    exact startAgrees.hasEntity link
  · intro existing
    have named := (afterAgrees parent child).mp link
    rw [allParents, kept.entityAt existing] at named
    exact hasEntity_of_down ((startAgrees parent child).mpr named)

section

variable {start : Model} {entities : List EntityId} {state : Copying} {after : Model}

-- Of the two ends of a link, the child's end is known for every copy; the parent's end follows.
theorem CopiesMade.copiesHierarchy (startAgrees : start.LinksAgree)
    (listed : ∀ original ∈ entities, start.HasEntity original)
    (made : CopiesMade start CopyBare (start.superclassFirstOrder entities) state)
    (kept : start.Extends after) (afterAgrees : after.LinksAgree)
    (same : SameLinks (state.model.copyInheritances state.copies).value after)
    (count : after.entityCount = state.model.entityCount) :
    HierarchyCopied start entities ⟨after, state.copies⟩ := by
  have inherited := inheritanceCopied_copyInheritances made
    fun original member => listed original (start.mem_superclassFirstOrder.mp member)
  have copied : ∀ original, original ∈ entities ↔
      ∃ copy, state.copies.copyOf? original = some copy := by
    intro original
    rw [← start.mem_superclassFirstOrder]
    exact ⟨made.copied original, fun ⟨copy, found⟩ => (made.isCopy found).1⟩
  have linked : ∀ original copy, state.copies.copyOf? original = some copy →
      ParentsCopied start state.copies after original copy := by
    intro original copy found
    have placed : original ∈ state.model.superclassFirstOrder state.copies.originals :=
      state.model.mem_superclassFirstOrder.mpr (made.mem_originals.mpr (made.isCopy found).1)
    exact (inherited.copied original placed copy found).sameLinks same
  have children : ∀ original copy, state.copies.copyOf? original = some copy →
      ∀ childCopy, childCopy ∈ after.children copy ↔
        ∃ child ∈ start.children original, state.copies.copyOf? child = some childCopy := by
    intro original copy found childCopy
    constructor
    · intro link
      have named := (afterAgrees copy childCopy).mp link
      have new : ¬ start.HasEntity childCopy := fun old =>
        (made.isCopy found).2.1.new ((kept.unmixed startAgrees afterAgrees link).mpr old)
      obtain ⟨child, foundToo⟩ := made.only childCopy new
        (Nat.lt_of_lt_of_eq (hasEntity_of_mem_allParents named) count)
      obtain ⟨parent, above, foundParent⟩ := ((linked child childCopy foundToo).parents copy).mp named
      obtain rfl := made.distinct foundParent found
      exact ⟨child, (startAgrees parent child).mpr above, foundToo⟩
    · rintro ⟨child, listedChild, foundToo⟩
      refine (afterAgrees copy childCopy).mpr (((linked child childCopy foundToo).parents copy).mpr ?_)
      exact ⟨original, (startAgrees original child).mp listedChild, found⟩
  refine ⟨kept, copied, fun original copy found => ?new, fun _ _ _ => made.distinct,
    fun original copy found => (linked original copy found).superclass,
    fun original copy found => (linked original copy found).parents, children,
    fun _ _ => kept.unmixed startAgrees afterAgrees, ?cycles⟩
  case new =>
    obtain ⟨_, isCopy, _⟩ := made.isCopy found
    exact ⟨isCopy.new, Nat.lt_of_lt_of_eq isCopy.there count.symm⟩
  case cycles =>
    intro original copy found
    constructor
    · intro cycle
      obtain ⟨last, foundToo, walk⟩ := below_of_below_copy copied children found cycle
      exact made.distinct foundToo found ▸ walk
    · exact fun walk => below_copy_of_below copied children found walk copy found

end

theorem CarriesAssociations.sameLinks {copies : EntityCopies} {start before after : Model}
    (carried : CarriesAssociations copies start before after) : SameLinks before after := by
  induction carried with
  | refl => exact fun _ => rfl
  | tail _ step ih =>
    cases step with
    | add => exact SameLinks.modifyEntity (fun id => ih id) _ _ fun _ => rfl
    | link => exact fun id => (SameLinks.of_entities (entities_linkInverse _ _ _) id).trans (ih id)
    | retarget => exact ih

/-- Flattening entities of a reachable model and building a target schema from them both copy the
hierarchy: multiple parents, partial selections and cycles included. -/
theorem Reachable.hierarchyCopied {model : Model} (reachable : model.Reachable)
    {entities : List EntityId} (listed : ∀ original ∈ entities, model.HasEntity original)
    (policy : PathPolicy) (depth : Nat) :
    HierarchyCopied model entities (model.flattenModel entities policy depth).value ∧
      HierarchyCopied model entities (model.targetSchema entities).value := by
  have agree := reachable.linksSound.agree
  constructor
  case left =>
    have made := copiesMade_superclassFirst listed keptByGrowth_copyBare
      (model.copiesAs_bare_flattenedCopy policy depth)
    let copying := (copyEach (fun model id => model.flattenedCopy policy id depth) model
      (model.superclassFirstOrder entities)).value
    have links := carriesLinks_copyInheritances copying.model copying.copies
    exact made.copiesHierarchy agree listed (made.apart.carriesLinks made.new links).kept
      (reachable.flattenModel entities policy depth).linksSound.agree (fun _ => rfl)
      links.sameButLinks.count
  case right =>
    have made := copiesMade_superclassFirst listed keptByGrowth_copyBare
      model.copiesAs_bare_targetCopy
    let copying := (copyEach (fun model id => pure (model.targetCopy id)) model
      (model.superclassFirstOrder entities)).value
    have links := carriesLinks_copyInheritances copying.model copying.copies
    have linked := made.apart.carriesLinks made.new links
    have associations := carriesAssociations_copyToTarget
      (copying.model.copyInheritances copying.copies).value copying.copies
    exact made.copiesHierarchy agree listed
      (linked.carriesAssociations made.new linked.kept associations).kept
      (reachable.targetSchema entities).linksSound.agree associations.sameLinks
      (associations.sameLabels.count.trans links.sameButLinks.count)

/-- A vehicle below its own subclass, which is a boat as well and has one of its two parents twice. -/
def amphibian : Model :=
  [Edit.insertEntity (.named "Vehicle"), .insertEntity (.named "Car"), .insertEntity (.named "Boat"),
    .insertEntity (.named "Amphibian"), .setSuperclass ⟨1⟩ (some ⟨0⟩), .setSuperclass ⟨2⟩ (some ⟨0⟩),
    .addParent ⟨3⟩ ⟨2⟩, .addParent ⟨3⟩ ⟨1⟩, .setSuperclass ⟨3⟩ (some ⟨1⟩),
    .setSuperclass ⟨0⟩ (some ⟨3⟩)].foldl Edit.apply .empty

theorem hierarchyCopied_amphibian :
    amphibian.Reachable ∧ (∀ original ∈ [⟨3⟩, ⟨0⟩, ⟨1⟩], amphibian.HasEntity original) ∧
      HierarchyCopied amphibian [⟨3⟩, ⟨0⟩, ⟨1⟩]
        (amphibian.flattenModel [⟨3⟩, ⟨0⟩, ⟨1⟩] .strict 1).value ∧
      HierarchyCopied amphibian [⟨3⟩, ⟨0⟩, ⟨1⟩] (amphibian.targetSchema [⟨3⟩, ⟨0⟩, ⟨1⟩]).value := by
  have reachable : amphibian.Reachable := Reachable.empty.of_leads (EditsFit.leads (by decide))
  have listed : ∀ original ∈ [⟨3⟩, ⟨0⟩, ⟨1⟩], amphibian.HasEntity original := by decide
  exact ⟨reachable, listed, Reachable.hierarchyCopied reachable listed .strict 1⟩

end ClassModel.Model
