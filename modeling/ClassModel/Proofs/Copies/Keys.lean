import ClassModel.Proofs.Copies.Flattening

/-! Keys of flattened copies.

A flattened copy has the first attribute of every name, so a key is left out of it when a nearer
declaration has the name of the key. What the copy has besides defined attributes are views: those
of associations are never keys, and those of longer paths are what the attributes at their ends are.
Apart from that the copy has the keys of its original.
-/

set_option autoImplicit false

namespace ClassModel

/-! ## Marked attributes among the first of every name -/

theorem firstOfEachName_append (attributes more : List Attribute) :
    firstOfEachName (attributes ++ more) = firstOfEachName attributes ++
      (firstOfEachName more).filter fun later => later.name ∉ attributes.map Attribute.name := by
  induction attributes with
  | nil => simp [firstOfEachName]
  | cons first rest ih =>
    rw [List.cons_append, firstOfEachName, ih, List.filter_append, List.filter_filter,
      firstOfEachName, List.cons_append]
    congr 2
    refine List.filter_congr fun later _ => ?_
    by_cases same : later.name = first.name <;> simp [same]

section

variable {marked : Attribute → Bool} {before after : List Attribute} {key : Attribute}
  (isMarked : marked key = true) (unmarked : ∀ earlier ∈ before, marked earlier = false)

include isMarked unmarked

-- The first marked attribute stays the first marked one, or its name is taken by an unmarked one.
theorem find?_firstOfEachName :
    ((firstOfEachName (before ++ key :: after)).find? marked).map Attribute.name = some key.name ↔
      key.name ∉ before.map Attribute.name := by
  have earlier : (firstOfEachName before).find? marked = none :=
    List.find?_eq_none.mpr fun declared member =>
      Bool.eq_false_iff.mp (unmarked declared (mem_of_mem_firstOfEachName member))
  rw [firstOfEachName_append, List.find?_append, earlier, Option.none_or]
  constructor
  · intro found
    obtain ⟨declared, known, named⟩ := Option.map_eq_some_iff.mp found
    have kept := (List.mem_filter.mp (List.mem_of_find?_eq_some known)).2
    rw [named] at kept
    exact of_decide_eq_true kept
  · intro fresh
    rw [firstOfEachName, List.filter_cons_of_pos (by simpa using fresh),
      List.find?_cons_of_pos isMarked]
    rfl

end

-- A second choice counts only when there is no first one.
theorem or_eq_or_iff {Name : Type} {first second firstCopy secondCopy : Option Name}
    (apart : first = none → ∀ name ∈ firstCopy, second ≠ some name) :
    firstCopy.or secondCopy = first.or second ↔
      firstCopy = first ∧ (first = none → secondCopy = second) ∨
        firstCopy = none ∧ ∃ name ∈ first, secondCopy = some name := by
  cases first with
  | some name => cases firstCopy <;> simp
  | none =>
    cases firstCopy with
    | none => simp
    | some name => simpa using (apart rfl name rfl).symm

namespace Model

/-! ## Keys -/

/-- The flags that make an attribute a key. -/
inductive KeyFlag where
  | identity
  | unique
  deriving DecidableEq

def KeyFlag.isSet : KeyFlag → AttributeFlags → Bool
  | .identity, flags => flags.identity
  | .unique, flags => flags.unique

variable (model : Model)

/-- The first defined attribute with a flag. With the identity flag it is the primary key, and with
the other one the unique key of an entity without primary key. -/
def firstWith? (flag : KeyFlag) (id : EntityId) : Option AttributeId :=
  (model.definedAttributes id).find? fun key => flag.isSet (model.attributeAt key).flags

/-- The name of a key that was looked for. -/
def keyName? (key : Option AttributeId) : Option String :=
  key.map fun key => (model.attributeAt key).name

theorem keyName?_eq_none_iff {key : Option AttributeId} : model.keyName? key = none ↔ key = none :=
  Option.map_eq_none_iff

theorem keyName?_uniqueKey? (id : EntityId) : model.keyName? (model.uniqueKey? id) =
    (model.keyName? (model.primaryKey? id)).or (model.keyName? (model.firstWith? .unique id)) :=
  Option.map_or

/-- Whether a defined attribute is the first one of its name. -/
def IsFirstOfName (id : EntityId) (key : AttributeId) : Prop :=
  (model.definedAttributes id).find? (fun other =>
    (model.attributeAt other).name == (model.attributeAt key).name) = some key

/-- Whether a flattened copy has a view of a longer path. -/
def HasView (policy : PathPolicy) (id : EntityId) (depth : Nat) (path : Path) : Prop :=
  path ∈ model.composedPaths policy id [] depth ∧ 2 ≤ path.length ∧
    .ofFeature (model.pathFeature id path) ∈ model.attributesOfCopy policy id depth

/-- Whether the first attribute with a flag stays in a flattened copy; and if there is none, whether
none comes with the view of a path that ends in one. -/
structure KeepsKey (policy : PathPolicy) (id : EntityId) (depth : Nat) (flag : KeyFlag) : Prop where
  present : ∀ key ∈ model.firstWith? flag id, model.IsFirstOfName id key
  absent : model.firstWith? flag id = none → ∀ path, model.HasView policy id depth path →
    ∀ last, path.getLast? = some (.attribute last) →
      flag.isSet (model.attributeAt last).flags = false

/-! ## Keys of copies -/

section

variable (policy : PathPolicy) (id : EntityId) (depth : Nat) (flag : KeyFlag)

theorem isSet_pathFeature (path : Path) : flag.isSet (model.pathFeature id path).flags =
    match path.getLast? with
    | some (.attribute last) => flag.isSet (model.attributeAt last).flags
    | _ => false := by
  unfold pathFeature endOfPath
  cases flag <;> cases path.getLast? with
  | none => rfl
  | some last => cases last <;> rfl

theorem isSet_roleFeature (role : AssociationId) :
    flag.isSet (model.roleFeature role).flags = false := by
  cases flag <;> rfl

theorem definedAttributes_of_superclass_none (alone : model.superclass id = none) :
    model.definedAttributes id = (model.entityAt id).attributes := by
  rw [definedAttributes, superclassChain_of_free alone, List.flatMap_singleton]

-- A copy has no superclass, so its attributes are those it was inserted with.
theorem firstWith?_flattenedCopy :
    ((model.flattenedCopy policy id depth).value.firstWith? flag model.nextEntity).map
        (model.flattenedCopy policy id depth).value.attributeAt =
      (model.attributesOfCopy policy id depth).find? fun declared => flag.isSet declared.flags := by
  have inserted := model.inserted_flattenedCopy policy id depth
  have alone : (model.flattenedCopy policy id depth).value.superclass model.nextEntity = none :=
    (congrArg Entity.superclass inserted.entity :)
  rw [firstWith?, definedAttributes_of_superclass_none _ _ alone, attributesOfCopy,
    declaredAttributes, List.find?_map]
  rfl

theorem keyName?_flattenedCopy :
    (model.flattenedCopy policy id depth).value.keyName?
        ((model.flattenedCopy policy id depth).value.firstWith? flag model.nextEntity) =
      ((model.attributesOfCopy policy id depth).find? fun declared =>
        flag.isSet declared.flags).map Attribute.name := by
  rw [← firstWith?_flattenedCopy, Option.map_map]
  rfl

/-- The views of a flattened copy: of single associations, and of longer paths. -/
def views : List Attribute :=
  ((model.definedAssociations id).filter fun role => !model.crossesBoundary id role).map
      (fun role => Attribute.ofFeature (model.roleFeature role)) ++
    ((model.composedPaths policy id [] depth).filter (2 ≤ ·.length)).map
      (fun path => Attribute.ofFeature (model.pathFeature id path))

theorem attributesOfCopy_views : model.attributesOfCopy policy id depth =
    firstOfEachName ((model.definedAttributes id).map model.attributeAt ++
      model.views policy id depth) := by
  rw [attributesOfCopy_eq, flattenedAttributes, reachableAttributes, List.append_assoc]
  rfl

variable {model id} in
theorem isFirstOfName_iff {before after : List AttributeId} {key : AttributeId}
    (defined : model.definedAttributes id = before ++ key :: after) (first : key ∉ before) :
    model.IsFirstOfName id key ↔
      (model.attributeAt key).name ∉ (before.map model.attributeAt).map Attribute.name := by
  have itself : (key :: after).find? (fun other =>
      (model.attributeAt other).name == (model.attributeAt key).name) = some key :=
    List.find?_cons_of_pos (beq_self_eq_true _)
  rw [IsFirstOfName, defined, List.find?_append, itself]
  cases nearer : before.find? fun other =>
      (model.attributeAt other).name == (model.attributeAt key).name with
  | none =>
    have fresh := List.find?_eq_none.mp nearer
    simpa using fresh
  | some other =>
    have member := List.mem_of_find?_eq_some nearer
    have named : (model.attributeAt other).name = (model.attributeAt key).name := by
      simpa using List.find?_some nearer
    constructor
    · intro same
      exact absurd (Option.some.inj same ▸ member) first
    · intro fresh
      exact absurd (named ▸ List.mem_map_of_mem (List.mem_map_of_mem member)) fresh

theorem find?_attributesOfCopy_eq_none_iff (missing : model.firstWith? flag id = none) :
    ((model.attributesOfCopy policy id depth).find? fun declared =>
        flag.isSet declared.flags) = none ↔
      ∀ path, model.HasView policy id depth path → ∀ last, path.getLast? = some (.attribute last) →
        flag.isSet (model.attributeAt last).flags = false := by
  simp only [List.find?_eq_none, Bool.not_eq_true]
  constructor
  · rintro unset path ⟨_, _, view⟩ last ending
    have flags := unset _ view
    rwa [Attribute.ofFeature, isSet_pathFeature, ending] at flags
  · intro unset declared member
    have among := member
    rw [attributesOfCopy_views] at among
    rcases List.mem_append.mp (mem_of_mem_firstOfEachName among) with own | view
    · obtain ⟨key, defined, rfl⟩ := List.mem_map.mp own
      exact Bool.eq_false_iff.mpr (List.find?_eq_none.mp missing key defined)
    rcases List.mem_append.mp view with single | longer
    · obtain ⟨role, _, rfl⟩ := List.mem_map.mp single
      exact model.isSet_roleFeature flag role
    · obtain ⟨path, listed, rfl⟩ := List.mem_map.mp longer
      obtain ⟨composed, long⟩ := List.mem_filter.mp listed
      have ending := unset path ⟨composed, of_decide_eq_true long, member⟩
      rw [Attribute.ofFeature, isSet_pathFeature]
      split
      · exact ending _ ‹_›
      · rfl

/-- The first attributes with a flag in a flattened copy and in its original have the same name, or
are both missing, exactly when the copy keeps the one of the original. -/
theorem keyName?_flattenedCopy_eq_iff :
    (model.flattenedCopy policy id depth).value.keyName?
        ((model.flattenedCopy policy id depth).value.firstWith? flag model.nextEntity) =
      model.keyName? (model.firstWith? flag id) ↔ model.KeepsKey policy id depth flag := by
  rw [keyName?_flattenedCopy]
  cases found : model.firstWith? flag id with
  | none =>
    rw [keyName?, Option.map_none, Option.map_eq_none_iff,
      find?_attributesOfCopy_eq_none_iff model policy id depth flag found]
    refine ⟨fun unset => ⟨fun key known => ?_, fun _ => unset⟩, fun keeps => keeps.absent found⟩
    rw [found] at known
    cases known
  | some key =>
    obtain ⟨isSet, before, after, defined, unset⟩ := List.find?_eq_some_iff_append.mp found
    have unmarked : ∀ earlier ∈ before, flag.isSet (model.attributeAt earlier).flags = false :=
      fun earlier member => by simpa using unset earlier member
    have first : key ∉ before := fun member => by simp [unmarked key member] at isSet
    have copied : model.attributesOfCopy policy id depth =
        firstOfEachName (before.map model.attributeAt ++ model.attributeAt key ::
          (after.map model.attributeAt ++ model.views policy id depth)) := by
      rw [attributesOfCopy_views, defined]
      simp
    rw [copied, keyName?, Option.map_some, find?_firstOfEachName isSet (by simpa using unmarked),
      ← isFirstOfName_iff defined first]
    constructor
    · refine fun present => ⟨fun other known => ?_, fun none => ?_⟩
      · rw [found] at known
        exact Option.some.inj known ▸ present
      · rw [found] at none
        cases none
    · exact fun keeps => keeps.present key found

-- What a copy has beyond the defined attributes has none of their names.
theorem name_view_ne {declared : Attribute}
    (member : declared ∈ model.attributesOfCopy policy id depth)
    (flagged : flag.isSet declared.flags = true) (missing : model.firstWith? flag id = none)
    {key : AttributeId} (defined : key ∈ model.definedAttributes id) :
    declared.name ≠ (model.attributeAt key).name := by
  rw [attributesOfCopy_views, firstOfEachName_append] at member
  rcases List.mem_append.mp member with own | view
  · obtain ⟨other, among, rfl⟩ := List.mem_map.mp (mem_of_mem_firstOfEachName own)
    exact absurd flagged (List.find?_eq_none.mp missing other among)
  · have fresh := of_decide_eq_true (List.mem_filter.mp view).2
    intro same
    exact fresh (same ▸ List.mem_map_of_mem (List.mem_map_of_mem defined))

end

/-- Whether a nearer declaration takes the place of the primary key: a flattened copy has no primary
key, and its first unique attribute has the name of the primary key of the original. -/
def ReplacesKey (policy : PathPolicy) (id : EntityId) (depth : Nat) : Prop :=
  let copied := (model.flattenedCopy policy id depth).value
  copied.primaryKey? model.nextEntity = none ∧
    ∃ name ∈ model.keyName? (model.primaryKey? id),
      copied.keyName? (copied.firstWith? .unique model.nextEntity) = some name

/-- The primary key of a flattened copy has the name of the original's exactly when it is the first
defined attribute of its name, or there is none and none comes with a path. With unique keys it is
the same, except that a nearer unique declaration may take the place of the primary key. -/
theorem flattenedCopy_keys (policy : PathPolicy) (id : EntityId) (depth : Nat) :
    let copied := (model.flattenedCopy policy id depth).value
    let copy := model.nextEntity
    (copied.keyName? (copied.primaryKey? copy) = model.keyName? (model.primaryKey? id) ↔
      model.KeepsKey policy id depth .identity) ∧
    (copied.keyName? (copied.uniqueKey? copy) = model.keyName? (model.uniqueKey? id) ↔
      model.KeepsKey policy id depth .identity ∧
          (model.primaryKey? id = none → model.KeepsKey policy id depth .unique) ∨
        model.ReplacesKey policy id depth) := by
  intro copied copy
  have identity := model.keyName?_flattenedCopy_eq_iff policy id depth .identity
  have unique := model.keyName?_flattenedCopy_eq_iff policy id depth .unique
  have apart : model.keyName? (model.primaryKey? id) = none →
      ∀ name ∈ copied.keyName? (copied.primaryKey? copy),
        model.keyName? (model.firstWith? .unique id) ≠ some name := by
    intro alone name added found
    obtain ⟨key, known, named⟩ := Option.map_eq_some_iff.mp found
    have view := (model.keyName?_flattenedCopy policy id depth .identity).symm.trans added
    obtain ⟨declared, first, rfl⟩ := Option.map_eq_some_iff.mp view
    have flagged : KeyFlag.identity.isSet declared.flags = true := by
      simpa using List.find?_some first
    exact model.name_view_ne policy id depth .identity (List.mem_of_find?_eq_some first) flagged
      (model.keyName?_eq_none_iff.mp alone) (List.mem_of_find?_eq_some known) named.symm
  refine ⟨identity, ?_⟩
  rw [keyName?_uniqueKey?, keyName?_uniqueKey?, or_eq_or_iff apart]
  exact or_congr (and_congr identity (imp_congr model.keyName?_eq_none_iff unique))
    (and_congr_left' copied.keyName?_eq_none_iff)

/-- Savings accounts declare the number of their account again, and tellers have one account. -/
def bank : Model :=
  [Edit.insertEntity (.named "Account"), .insertEntity (.named "Savings"),
    .insertEntity (.named "Teller"), .setSuperclass ⟨1⟩ (some ⟨0⟩),
    .attachAttribute ⟨0⟩
      { name := "number", type := .primitive "String", owner := ⟨0⟩,
        flags := { unique := true, identity := true } },
    .attachAttribute ⟨1⟩ { name := "number", type := .primitive "String", owner := ⟨1⟩ },
    .addAssociation { entity1 := ⟨2⟩, entity2 := ⟨0⟩, role2 := "account" }].foldl Edit.apply .empty

/-- The copy of savings accounts has lost the key of accounts, and the copy of tellers has it. -/
theorem keys_bank_apart : bank.Reachable ∧
    bank.primaryKey? ⟨1⟩ = some ⟨0⟩ ∧
    (bank.flattenedCopy .strict ⟨1⟩ 2).value.primaryKey? bank.nextEntity = none ∧
    bank.primaryKey? ⟨2⟩ = none ∧
    ((bank.flattenedCopy .strict ⟨2⟩ 2).value.primaryKey? bank.nextEntity).isSome := by
  refine ⟨Reachable.empty.of_leads (EditsFit.leads (by decide)), ?_⟩
  decide +kernel

end Model

end ClassModel
