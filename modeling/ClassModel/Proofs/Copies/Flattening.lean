import ClassModel.Proofs.Copies.Insertion
import ClassModel.Proofs.Features.Enumeration

/-! The attributes of a flattened copy, path by path.

A flattened copy is put together from the defined attributes, the far ends of associations and the
longer paths. Read as name, type and flags, these are the features of all enumerated paths, those of
one step before the longer ones; of them the copy has the first of every name.
-/

set_option autoImplicit false

namespace ClassModel

/-! ## The first of every kind -/

theorem map_eraseDupsBy {Item Seen : Type} (read : Item → Seen) (alike : Seen → Seen → Bool)
    (items : List Item) :
    (items.eraseDupsBy fun later first => alike (read later) (read first)).map read =
      (items.map read).eraseDupsBy alike := by
  match items with
  | [] => rfl
  | first :: rest =>
    rw [List.eraseDupsBy_cons, List.map_cons, List.map_cons, List.eraseDupsBy_cons,
      map_eraseDupsBy read alike, List.filter_map]
    rfl
termination_by items.length
decreasing_by exact Nat.lt_succ_of_le (List.length_filter_le _ _)

-- Only names decide, so what is left out by its name may be left out before or after.
theorem firstOfEachName_filter (keep : String → Bool) (attributes : List Attribute) :
    firstOfEachName (attributes.filter fun declared => keep declared.name) =
      (firstOfEachName attributes).filter fun declared => keep declared.name := by
  induction attributes with
  | nil => rfl
  | cons first rest ih =>
    by_cases kept : keep first.name
    · simp [firstOfEachName, kept, ih, List.filter_filter, Bool.and_comm]
    · rw [List.filter_cons_of_neg (by simpa using kept), ih, firstOfEachName,
        List.filter_cons_of_neg (by simpa using kept), List.filter_filter]
      refine List.filter_congr fun later _ => ?_
      by_cases same : later.name = first.name
      · simp [same, kept]
      · simp [same]

theorem firstOfEachName_eq_eraseDupsBy (attributes : List Attribute) :
    firstOfEachName attributes =
      attributes.eraseDupsBy fun later first => later.name == first.name := by
  match attributes with
  | [] => rfl
  | first :: rest =>
    have others : rest.filter (fun later => (later.name == first.name) = false) =
        rest.filter fun later => later.name != first.name :=
      List.filter_congr fun later _ => by cases same : later.name == first.name <;> simp [bne, same]
    rw [firstOfEachName, List.eraseDupsBy_cons, others, ← firstOfEachName_filter (· != first.name),
      firstOfEachName_eq_eraseDupsBy (rest.filter _)]
termination_by attributes.length
decreasing_by exact Nat.lt_succ_of_le (List.length_filter_le _ _)

theorem name_mem_firstOfEachName {attributes : List Attribute} {declared : Attribute}
    (member : declared ∈ attributes) :
    declared.name ∈ (firstOfEachName attributes).map Attribute.name := by
  induction attributes with
  | nil => cases member
  | cons first rest ih =>
    rw [firstOfEachName, List.map_cons, List.mem_cons]
    by_cases same : declared.name = first.name
    · exact .inl same
    · rcases List.mem_cons.mp member with rfl | later
      · exact .inl rfl
      · obtain ⟨found, among, named⟩ := List.mem_map.mp (ih later)
        refine .inr (List.mem_map.mpr ⟨found, List.mem_filter.mpr ⟨among, ?_⟩, named⟩)
        simpa [named] using same

/-! ## Readings -/

/-- What an attribute and the feature it stands for have in common. -/
structure Reading where
  name : String
  type : TypeExpr
  flags : AttributeFlags

def Attribute.reading (declared : Attribute) : Reading :=
  ⟨declared.name, declared.type, declared.flags⟩

def Feature.reading (feature : Feature) : Reading :=
  ⟨feature.name, feature.type, feature.flags⟩

namespace Model

variable (model : Model) (policy : PathPolicy) (id : EntityId)

theorem reading_pathFeature_attribute (last : AttributeId) :
    (model.pathFeature id [.attribute last]).reading = (model.attributeAt last).reading := by
  simp [pathFeature, Feature.reading, Attribute.reading, endOfPath, branches, pathName, stepName,
    Path.roles]

theorem reading_pathFeature_role (role : AssociationId) :
    (model.pathFeature id [.role role]).reading = (model.roleFeature role).reading := by
  simp [pathFeature, Feature.reading, endOfPath, branches, pathName, stepName, roleFeature,
    Path.roles]

/-! ## Paths of one step and longer ones -/

theorem pathsFrom_oneStep (steps : Nat) (previous : Option AssociationId) (seen : List EntityId) :
    (model.pathsFrom policy (steps + 1) previous seen id).filter (·.length == 1) =
      (model.definedAttributes id).map (fun last => [.attribute last]) ++
        (model.openRoles policy previous id).map fun role => [.role role] := by
  have alone : ∀ role, ([.role role] :: if policy.enters seen (model.far role) then
      (model.pathsFrom policy steps (some role) (model.far role :: seen) (model.far role)).map
        (.role role :: ·) else []).filter (fun path : Path => path.length == 1) =
      [[.role role]] := by
    intro role
    rw [List.filter_cons_of_pos rfl, List.cons.injEq]
    refine ⟨rfl, List.filter_eq_nil_iff.mpr fun path member => ?_⟩
    split at member
    · obtain ⟨rest, among, rfl⟩ := List.mem_map.mp member
      have more := List.length_pos_iff.mpr (mem_pathsFrom.mp among).route.ne_nil
      rw [List.length_cons, beq_iff_eq]
      omega
    · cases member
  rw [pathsFrom, List.filter_append, List.filter_flatMap]
  simp only [alone]
  rw [List.map_eq_flatMap (l := model.openRoles policy previous id)]
  congr 1
  simp

theorem composedPaths_longer (depth : Nat) :
    (model.composedPaths policy id [] (max depth 1)).filter (2 ≤ ·.length) =
      (model.composedPaths policy id [] depth).filter (2 ≤ ·.length) := by
  cases depth with
  | succ depth => rw [Nat.max_eq_left (Nat.le_add_left 1 depth)]
  | zero =>
    refine List.filter_eq_nil_iff.mpr fun path member => ?_
    have short := (mem_pathsFrom.mp member).short
    simpa using Nat.lt_succ_of_le short

/-- The features of all paths of limited length, those of one step before the longer ones. -/
def enumeratedFeatures (steps : Nat) : List Feature :=
  let paths := model.composedPaths policy id [] steps
  (paths.filter (·.length == 1) ++ paths.filter (2 ≤ ·.length)).map (model.pathFeature id)

theorem readings_reachableAttributes (depth : Nat) :
    (model.reachableAttributes policy id depth).map Attribute.reading =
      (model.enumeratedFeatures policy id (max depth 1)).map Feature.reading := by
  obtain ⟨steps, atLeastOne⟩ : ∃ steps, max depth 1 = steps + 1 :=
    ⟨max depth 1 - 1, by omega⟩
  have oneStep : (model.composedPaths policy id [] (max depth 1)).filter (·.length == 1) =
      (model.definedAttributes id).map (fun last => [.attribute last]) ++
        (model.openRoles policy none id).map fun role => [.role role] := by
    rw [atLeastOne]
    exact model.pathsFrom_oneStep policy id steps none [id]
  unfold enumeratedFeatures reachableAttributes
  simp only [oneStep, composedPaths_longer, openRoles_none, List.map_append, List.map_map,
    Function.comp_def, reading_pathFeature_attribute, reading_pathFeature_role]
  rfl

theorem pathFeature_mem_enumeratedFeatures {steps : Nat} {path : Path}
    (member : path ∈ model.composedPaths policy id [] steps) :
    model.pathFeature id path ∈ model.enumeratedFeatures policy id steps := by
  refine List.mem_map_of_mem (List.mem_append.mpr ?_)
  have some : 1 ≤ path.length := List.length_pos_iff.mpr (mem_pathsFrom.mp member).route.ne_nil
  rcases Nat.eq_or_lt_of_le some with one | more
  · exact .inl (List.mem_filter.mpr ⟨member, by simp [← one]⟩)
  · exact .inr (List.mem_filter.mpr ⟨member, decide_eq_true more⟩)

/-- Whatever a flattened copy declares is a defined attribute or stands for an enumerated path. -/
theorem mem_flattenedAttributes (depth : Nat) {declared : Attribute}
    (member : declared ∈ model.flattenedAttributes policy id depth) :
    (∃ last ∈ model.definedAttributes id, declared = model.attributeAt last) ∨
      ∃ path ∈ model.composedPaths policy id [] (max depth 1), declared.path = some path := by
  have among := mem_of_mem_firstOfEachName member
  rcases List.mem_append.mp among with oneStep | longer
  · rcases List.mem_append.mp oneStep with own | far
    · obtain ⟨last, defined, rfl⟩ := List.mem_map.mp own
      exact .inl ⟨last, defined, rfl⟩
    · obtain ⟨role, inside, rfl⟩ := List.mem_map.mp far
      rw [← model.openRoles_none policy] at inside
      refine .inr ⟨[.role role], mem_pathsFrom.mpr ?_, rfl⟩
      obtain ⟨steps, atLeastOne⟩ : ∃ steps, max depth 1 = steps + 1 := ⟨max depth 1 - 1, by omega⟩
      rw [atLeastOne]
      exact continues_role.mpr inside
  · obtain ⟨path, listed, rfl⟩ := List.mem_map.mp longer
    rw [← composedPaths_longer] at listed
    exact .inr ⟨path, (List.mem_filter.mp listed).1, rfl⟩

/-- The attributes of a flattened copy are the features of the enumerated paths, the first of every
name: no name is there twice, and none is missing. -/
theorem flattenedCopy_enumerates (model : Model) (policy : PathPolicy) (id : EntityId)
    (depth : Nat) :
    (model.attributesOfCopy policy id depth).map Attribute.reading =
        ((model.enumeratedFeatures policy id (max depth 1)).eraseDupsBy
          fun later first => later.name == first.name).map Feature.reading ∧
      ((model.attributesOfCopy policy id depth).map Attribute.name).Nodup ∧
      ∀ path ∈ model.composedPaths policy id [] (max depth 1),
        (model.pathFeature id path).name ∈
          (model.attributesOfCopy policy id depth).map Attribute.name := by
  rw [attributesOfCopy_eq]
  refine ⟨?readings, nodup_names_firstOfEachName _, ?names⟩
  case readings =>
    calc (model.flattenedAttributes policy id depth).map Attribute.reading
      _ = ((model.reachableAttributes policy id depth).eraseDupsBy
            fun later first => later.name == first.name).map Attribute.reading :=
          congrArg _ (firstOfEachName_eq_eraseDupsBy _)
      _ = ((model.reachableAttributes policy id depth).map Attribute.reading).eraseDupsBy
            fun later first => later.name == first.name :=
          map_eraseDupsBy Attribute.reading (fun later first => later.name == first.name) _
      _ = ((model.enumeratedFeatures policy id (max depth 1)).map Feature.reading).eraseDupsBy
            fun later first => later.name == first.name := by
          rw [readings_reachableAttributes]
      _ = ((model.enumeratedFeatures policy id (max depth 1)).eraseDupsBy
            fun later first => later.name == first.name).map Feature.reading :=
          (map_eraseDupsBy Feature.reading (fun later first => later.name == first.name) _).symm
  case names =>
    intro path member
    have listed : (model.pathFeature id path).reading ∈
        (model.reachableAttributes policy id depth).map Attribute.reading := by
      rw [readings_reachableAttributes]
      exact List.mem_map_of_mem (model.pathFeature_mem_enumeratedFeatures policy id member)
    obtain ⟨declared, among, same⟩ := List.mem_map.mp listed
    have named : declared.name = (model.pathFeature id path).name := congrArg Reading.name same
    exact named ▸ name_mem_firstOfEachName among

end Model

end ClassModel
