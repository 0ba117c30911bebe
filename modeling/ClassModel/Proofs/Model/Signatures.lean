import ClassModel.Proofs.Model.Owners

/-! The operations that an entity lists.

The model keeps every declaration. An entity lists one for each signature: the last one, in the place
that the first one got. So the signatures of a list are those of all declarations, in the order in
which they came up.
-/

set_option autoImplicit false

namespace ClassModel.Model

def HasOperation (model : Model) (id : OperationId) : Prop := id.index < model.operations.size

instance (model : Model) (id : OperationId) : Decidable (model.HasOperation id) :=
  inferInstanceAs (Decidable (id.index < model.operations.size))

def signature (model : Model) (id : OperationId) : String × List TypeExpr :=
  (model.operationAt id).signature

theorem signature_congr {model next : Model} (same : next.operations = model.operations) :
    next.signature = model.signature := by
  funext id
  simp only [signature, operationAt, same]

/-- The signatures of the operations that an entity lists. -/
def signatures (model : Model) (id : EntityId) : List (String × List TypeExpr) :=
  (model.entityAt id).operations.map model.signature

/-- The signatures of all operations that were ever added to an entity, one after another. -/
def declaredSignatures (model : Model) (id : EntityId) : List (String × List TypeExpr) :=
  (model.operations.toList.filter (·.owner = id)).map Operation.signature

theorem getElem?_signatures (model : Model) (id : EntityId) (place : Nat) :
    (model.signatures id)[place]? = (model.entityAt id).operations[place]?.map model.signature :=
  List.getElem?_map

theorem mem_declaredSignatures {model : Model} {id : OperationId} (there : model.HasOperation id) :
    model.signature id ∈ model.declaredSignatures (model.operationAt id).owner := by
  have found : model.operationAt id = model.operations[id.index] := by
    simp [operationAt, Array.getElem?_eq_getElem there]
  refine List.mem_map.mpr ⟨model.operationAt id, List.mem_filter.mpr ⟨?_, by simp⟩, rfl⟩
  rw [found]
  exact Array.getElem_mem_toList there

/-! ## Adding an operation -/

section

variable {model : Model} {added : Operation} {id : EntityId}

theorem redeclaredAt?_eq (model : Model) (added : Operation) :
    model.redeclaredAt? added = (model.signatures added.owner).idxOf? added.signature := by
  unfold signatures redeclaredAt? List.idxOf?
  rw [List.findIdx?_map]
  rfl

theorem operations_addOperation (there : model.HasEntity added.owner) (id : EntityId) :
    ((model.addOperation added).entityAt id).operations =
      if id = added.owner then
        match (model.signatures id).idxOf? added.signature with
        | some place => (model.entityAt id).operations.set place model.nextOperation
        | none => (model.entityAt id).operations ++ [model.nextOperation]
      else (model.entityAt id).operations := by
  unfold addOperation
  dsimp only
  rw [entityAt_modifyEntity]
  by_cases own : id = added.owner
  · subst own
    rw [if_pos rfl, if_pos ⟨rfl, there⟩, redeclaredAt?_eq]
    rfl
  · rw [if_neg own, if_neg fun same => own same.1.symm]
    rfl

theorem operationAt_addOperation_nextOperation (model : Model) (added : Operation) :
    (model.addOperation added).operationAt model.nextOperation = added := by
  simp [operationAt, addOperation, nextOperation, modifyEntity]

theorem hasOperation_addOperation {operation : OperationId}
    (there : (model.addOperation added).HasOperation operation) :
    operation = model.nextOperation ∨ model.HasOperation operation := by
  have bound : operation.index < model.operations.size + 1 := by
    simpa [HasOperation, addOperation, modifyEntity] using there
  rcases Nat.lt_succ_iff_lt_or_eq.mp bound with old | new
  · exact .inr old
  · exact .inl (congrArg OperationId.mk new)

theorem declaredSignatures_addOperation (model : Model) (added : Operation) (id : EntityId) :
    (model.addOperation added).declaredSignatures id =
      if id = added.owner then model.declaredSignatures id ++ [added.signature]
      else model.declaredSignatures id := by
  have pushed : (model.addOperation added).operations = model.operations.push added := rfl
  unfold declaredSignatures
  rw [pushed, Array.toList_push, List.filter_append, List.map_append]
  by_cases own : id = added.owner
  · simp [own]
  · simp [own, Ne.symm own]

-- What was there keeps its number.
theorem operationAt_of_keeps {before after : Model} (kept : Keeps before.operations after.operations)
    {operation : OperationId} (there : before.HasOperation operation) :
    after.operationAt operation = before.operationAt operation :=
  kept.getD_eq there default

theorem keeps_addOperation (model : Model) (added : Operation) :
    Keeps model.operations (model.addOperation added).operations := (Keeps.refl _).push added

end

/-! ## The invariant -/

/-- The operations that an entity lists are there, one for each signature that was declared for it. They
come in the order in which the signatures came up, and each is the last declaration of its own. -/
structure ListsLatest (id : EntityId) (model : Model) : Prop where
  there : ∀ listed ∈ (model.entityAt id).operations, model.HasOperation listed
  order : model.signatures id = (model.declaredSignatures id).eraseDups
  latest : ∀ listed ∈ (model.entityAt id).operations, ∀ operation, model.HasOperation operation →
    (model.operationAt operation).owner = id → model.signature operation = model.signature listed →
    operation.index ≤ listed.index

namespace ListsLatest

variable {model : Model} {id : EntityId} (lists : model.ListsLatest id)

include lists

theorem nodup_signatures : (model.signatures id).Nodup := by
  rw [lists.order]
  exact nodup_eraseDups _

theorem signatures_addOperation {added : Operation} (there : model.HasEntity added.owner) :
    (model.addOperation added).signatures id =
      if id = added.owner ∧ added.signature ∉ model.signatures id then
        model.signatures id ++ [added.signature]
      else model.signatures id := by
  have new : (model.addOperation added).signature model.nextOperation = added.signature :=
    congrArg Operation.signature (model.operationAt_addOperation_nextOperation added)
  have old : (model.entityAt id).operations.map (model.addOperation added).signature =
      model.signatures id :=
    List.map_congr_left fun listed member => congrArg Operation.signature
      (operationAt_of_keeps (model.keeps_addOperation added) (lists.there listed member))
  rw [signatures, operations_addOperation there]
  by_cases own : id = added.owner
  · rw [if_pos own]
    cases found : (model.signatures id).idxOf? added.signature with
    | none =>
      rw [if_pos ⟨own, List.idxOf?_eq_none_iff.mp found⟩, List.map_append, old]
      simp [new]
    | some place =>
      obtain ⟨inside, same, _⟩ := List.idxOf?_eq_some_iff.mp found
      have member : added.signature ∈ model.signatures id := same ▸ List.getElem_mem inside
      rw [if_neg fun fresh => fresh.2 member, List.map_set, old, new, ← same]
      exact List.set_getElem_self inside
  · rw [if_neg own, if_neg fun fresh => own fresh.1, old]

-- A declaration that gives up its place is not listed any more.
theorem mem_addOperation {added : Operation} (there : model.HasEntity added.owner)
    {listed : OperationId}
    (member : listed ∈ ((model.addOperation added).entityAt id).operations) :
    listed = model.nextOperation ∨ listed ∈ (model.entityAt id).operations ∧
      (id = added.owner → model.signature listed ≠ added.signature) := by
  rw [operations_addOperation there] at member
  by_cases own : id = added.owner
  · rw [if_pos own] at member
    cases found : (model.signatures id).idxOf? added.signature with
    | none =>
      rw [found] at member
      rcases List.mem_append.mp member with before | new
      · refine .inr ⟨before, fun _ same => List.idxOf?_eq_none_iff.mp found ?_⟩
        exact same ▸ List.mem_map_of_mem before
      · exact .inl (List.mem_singleton.mp new)
    | some place =>
      rw [found] at member
      obtain ⟨inside, same, _⟩ := List.idxOf?_eq_some_iff.mp found
      obtain ⟨other, read⟩ := List.mem_iff_getElem?.mp member
      rw [List.getElem?_set] at read
      by_cases here : place = other
      · simp only [here, if_true] at read
        split at read
        · exact .inl (Option.some.inj read).symm
        · cases read
      · rw [if_neg here] at read
        refine .inr ⟨List.mem_of_getElem? read, fun _ again => here ?_⟩
        refine (List.getElem?_inj inside lists.nodup_signatures).mp ?_
        rw [List.getElem?_eq_getElem inside, same, getElem?_signatures, read, ← again]
        rfl
  · rw [if_neg own] at member
    exact .inr ⟨member, fun same => absurd same own⟩

theorem addOperation {added : Operation} (there : model.HasEntity added.owner) :
    (model.addOperation added).ListsLatest id where
  there listed member := by
    have larger : model.operations.size < (model.addOperation added).operations.size := by
      simp [Model.addOperation, modifyEntity]
    rcases lists.mem_addOperation there member with rfl | ⟨before, _⟩
    · exact larger
    · exact Nat.lt_trans (lists.there listed before) larger
  order := by
    rw [lists.signatures_addOperation there, declaredSignatures_addOperation]
    by_cases own : id = added.owner
    · subst own
      have known : added.signature ∈ model.signatures added.owner ↔
          added.signature ∈ model.declaredSignatures added.owner := by
        rw [lists.order, List.mem_eraseDups]
      rw [if_pos rfl, eraseDups_concat, ← lists.order]
      simp [known]
    · rw [if_neg own, if_neg fun fresh => own fresh.1, lists.order]
  latest listed member operation inside owned same := by
    have kept := model.keeps_addOperation added
    rcases lists.mem_addOperation there member with rfl | ⟨before, other⟩
    · have bound : operation.index < model.operations.size + 1 := by
        simpa [HasOperation, Model.addOperation, modifyEntity] using inside
      exact Nat.le_of_lt_succ bound
    · have old := operationAt_of_keeps kept (lists.there listed before)
      rw [signature, signature, old] at same
      rcases hasOperation_addOperation inside with rfl | earlier
      · rw [operationAt_addOperation_nextOperation] at owned same
        exact absurd same.symm (other owned.symm)
      · rw [operationAt_of_keeps kept earlier] at owned same
        exact lists.latest listed before operation earlier owned same

end ListsLatest

/-! ## One change -/

/-- What one change does to the operations. -/
inductive OperationsChange (model : Model) : Model → Prop where
  | kept {next : Model} (operations : next.operations = model.operations)
      (lists : ∀ id, (next.entityAt id).operations = (model.entityAt id).operations) :
      OperationsChange model next
  | added (added : Operation) (there : model.HasEntity added.owner) :
      OperationsChange model (model.addOperation added)

theorem OperationsChange.of_sameButLinks {model next : Model} (same : SameButLinks model next) :
    OperationsChange model next :=
  .kept same.operations fun id => (congrArg Entity.operations (same.entities id) :)

theorem OperationsChange.of_edit {model : Model} (edit : Edit) (fits : edit.Fits model) :
    OperationsChange model (edit.apply model) := by
  cases edit with
  | insertEntity entity =>
    exact .kept rfl fun id => part_insertEntity Entity.operations model entity id fits.operations
  | addOperation added => exact .added added fits
  | linkInverse first second =>
    refine .kept (model.operations_linkInverse first second) fun id => ?_
    simp only [Edit.apply, entityAt, entities_linkInverse]
  | setSuperclass child parent =>
    exact .of_sameButLinks (model.sameButLinks_setSuperclass child parent)
  | addParent child parent => exact .of_sameButLinks (model.sameButLinks_addParent child parent)
  | removeGeneralization parent child =>
    exact .of_sameButLinks (model.sameButLinks_removeGeneralization parent child)
  | _ => exact .kept rfl fun id => part_modifyEntity Entity.operations _ _ id _ fun _ => rfl

theorem Changes.operationsChange {model next : Model} (changes : Changes model next) :
    OperationsChange model next := by
  cases changes with
  | edit edit fits => exact .of_edit edit fits
  | settings id change kept =>
    refine .kept rfl fun asked => part_modifyEntity Entity.operations model id asked change ?_
    exact fun entity => (congrArg Entity.operations (kept entity) :)
  | changeAttribute | changeAssociation => exact .kept rfl fun _ => rfl

theorem ListsLatest.of_kept {model next : Model} {id : EntityId} (lists : model.ListsLatest id)
    (operations : next.operations = model.operations)
    (same : (next.entityAt id).operations = (model.entityAt id).operations) :
    next.ListsLatest id := by
  obtain ⟨there, order, latest⟩ := lists
  have read := signature_congr operations
  constructor
  · simpa only [HasOperation, operations, same] using there
  · simpa only [signatures, declaredSignatures, read, operations, same] using order
  · simpa only [HasOperation, read, operationAt, operations, same] using latest

theorem listsLatest_empty (id : EntityId) : ListsLatest id .empty where
  there listed member := by cases member
  order := rfl
  latest listed member := by cases member

theorem Reachable.listsLatest {model : Model} (reachable : model.Reachable) (id : EntityId) :
    model.ListsLatest id := by
  refine reachable.holds (listsLatest_empty id) fun changes lists => ?_
  cases changes.operationsChange with
  | kept operations same => exact lists.of_kept operations (same id)
  | added added there => exact lists.addOperation there

/-! ## Histories -/

theorem Leads.keeps_operations {earlier model : Model} (leads : Leads earlier model) :
    Keeps earlier.operations model.operations := by
  induction leads with
  | refl => exact .refl _
  | tail _ changes ih => exact ih.trans changes.keepsOwners.operations

-- A signature stays in its place.
theorem OperationsChange.signatures_prefix {model next : Model} {id : EntityId}
    (change : OperationsChange model next) (lists : model.ListsLatest id) :
    model.signatures id <+: next.signatures id := by
  cases change with
  | kept operations same =>
    have unchanged : next.signatures id = model.signatures id := by
      rw [signatures, signatures, signature_congr operations, same id]
    exact unchanged ▸ List.prefix_rfl
  | added added there =>
    rw [lists.signatures_addOperation there]
    split
    · exact List.prefix_append _ _
    · exact List.prefix_rfl

theorem Leads.signatures_prefix {earlier model : Model} (reachable : earlier.Reachable)
    (leads : Leads earlier model) (id : EntityId) :
    earlier.signatures id <+: model.signatures id := by
  induction leads with
  | refl => exact List.prefix_rfl
  | tail before changes ih =>
    have lists := (reachable.of_leads before).listsLatest id
    exact ih.trans (changes.operationsChange.signatures_prefix lists)

theorem nextOperation_mem_addOperation (model : Model) {added : Operation}
    (there : model.HasEntity added.owner) :
    model.nextOperation ∈ ((model.addOperation added).entityAt added.owner).operations := by
  rw [operations_addOperation there, if_pos rfl]
  cases found : (model.signatures added.owner).idxOf? added.signature with
  | none => exact List.mem_append_right _ (List.mem_singleton_self _)
  | some place =>
    obtain ⟨inside, _⟩ := List.idxOf?_eq_some_iff.mp found
    exact List.mem_set (by simpa [signatures] using inside) _

/-- The operation that an entity lists for a signature, in a place of its list. -/
structure Current (model : Model) (id : EntityId) (asked : String × List TypeExpr) (place : Nat)
    (listed : OperationId) : Prop where
  there : (model.entityAt id).operations[place]? = some listed
  owner : (model.operationAt listed).owner = id
  signature : model.signature listed = asked
  /-- No other operation with this signature is listed. -/
  only : ∀ other ∈ (model.entityAt id).operations, model.signature other = asked → other = listed
  /-- No operation with this signature was added later. -/
  last : ∀ operation, model.HasOperation operation → (model.operationAt operation).owner = id →
    model.signature operation = asked → operation.index ≤ listed.index

theorem Reachable.exists_current {model : Model} (reachable : model.Reachable) {id : EntityId}
    {asked : String × List TypeExpr} {place : Nat}
    (found : (model.signatures id)[place]? = some asked) :
    ∃ listed, model.Current id asked place listed := by
  have lists := reachable.listsLatest id
  have read := found
  rw [getElem?_signatures] at read
  obtain ⟨listed, there, rfl⟩ := Option.map_eq_some_iff.mp read
  have member := List.mem_of_getElem? there
  refine ⟨listed, there, ?_, rfl, fun other also same => ?_, lists.latest listed member⟩
  · exact reachable.listsOwn .operations id _ (List.mem_map_of_mem member)
  · obtain ⟨elsewhere, here⟩ := List.mem_iff_getElem?.mp also
    have inside := (List.getElem?_eq_some_iff.mp found).1
    have again : (model.signatures id)[place]? = (model.signatures id)[elsewhere]? := by
      rw [found, getElem?_signatures, here, ← same]
      rfl
    obtain rfl := (List.getElem?_inj inside lists.nodup_signatures).mp again
    exact Option.some.inj (here.symm.trans there)

/-- The operations that entities list: one for each signature, in the order in which the signatures came
up. Whatever was added, at whatever time, the last operation of its signature is in its place. -/
structure OperationsCurrent (model : Model) : Prop where
  once : ∀ id, (model.signatures id).Nodup
  order : ∀ id, model.signatures id = (model.declaredSignatures id).eraseDups
  current : ∀ operation, model.HasOperation operation → ∃ place listed,
    model.Current (model.operationAt operation).owner (model.signature operation) place listed
  since : ∀ (earlier : Model) (added : Operation), earlier.Reachable →
    earlier.HasEntity added.owner → Leads (earlier.addOperation added) model →
    model.operationAt earlier.nextOperation = added ∧ ∃ place listed,
      ((earlier.addOperation added).entityAt added.owner).operations[place]? =
        some earlier.nextOperation ∧
      model.Current added.owner added.signature place listed

/-- In every reachable model an entity lists the last operation of every signature that was added to it,
in the place of the first one. -/
theorem Reachable.operationsCurrent {model : Model} (reachable : model.Reachable) :
    model.OperationsCurrent where
  once id := (reachable.listsLatest id).nodup_signatures
  order id := (reachable.listsLatest id).order
  current operation there := by
    have declared := mem_declaredSignatures there
    rw [← List.mem_eraseDups, ← (reachable.listsLatest _).order] at declared
    obtain ⟨place, found⟩ := List.mem_iff_getElem?.mp declared
    exact ⟨place, reachable.exists_current found⟩
  since earlier added before there leads := by
    have begun : (earlier.addOperation added).Reachable :=
      before.change (.edit (.addOperation added) there)
    have new := earlier.operationAt_addOperation_nextOperation added
    have inside : (earlier.addOperation added).HasOperation earlier.nextOperation := by
      simp [HasOperation, addOperation, modifyEntity, nextOperation]
    obtain ⟨place, listed⟩ :=
      List.mem_iff_getElem?.mp (earlier.nextOperation_mem_addOperation there)
    have first : ((earlier.addOperation added).signatures added.owner)[place]? =
        some added.signature := by
      rw [getElem?_signatures, listed, Option.map_some, signature, new]
    obtain ⟨rest, grown⟩ := leads.signatures_prefix begun added.owner
    have found : (model.signatures added.owner)[place]? = some added.signature := by
      rw [← grown, List.getElem?_append_left (List.getElem?_eq_some_iff.mp first).1, first]
    obtain ⟨current, holds⟩ := reachable.exists_current found
    exact ⟨(operationAt_of_keeps leads.keeps_operations inside).trans new,
      place, current, listed, holds⟩

/-- A desk that lends and has not said how yet, beside a branch. -/
def openedDesk : Model :=
  [Edit.insertEntity (.named "Desk"), .insertEntity (.named "Branch")].foldl Edit.apply .empty

def lend : Operation :=
  { name := "lend", params := [⟨"item", .primitive "String"⟩], owner := ⟨0⟩ }

/-- The desk declares how to renew, a way to lend several items, and again how to lend one. The branch
lends as well. -/
def busyDesk : Model :=
  [Edit.addOperation { lend with owner := ⟨1⟩ }, .addOperation { name := "renew", owner := ⟨0⟩ },
    .addOperation { lend with params := [⟨"items", .setOf (.primitive "String")⟩] },
    .addOperation { lend with params := [⟨"copy", .primitive "String"⟩],
                              flags := { query := true } }].foldl Edit.apply
    (openedDesk.addOperation lend)

/-- What the desk said last about lending one item is in the first place. -/
theorem operationsCurrent_busyDesk :
    busyDesk.Reachable ∧ busyDesk.listed .operations ⟨0⟩ = [4, 2, 3] ∧
      busyDesk.listed .operations ⟨1⟩ = [1] ∧
      busyDesk.operationAt openedDesk.nextOperation = lend ∧
      ((openedDesk.addOperation lend).entityAt ⟨0⟩).operations[0]? = some openedDesk.nextOperation ∧
      busyDesk.Current ⟨0⟩ lend.signature 0 ⟨4⟩ := by
  have opened : openedDesk.Reachable := Reachable.empty.of_leads (EditsFit.leads (by decide))
  have leads : Leads (openedDesk.addOperation lend) busyDesk := EditsFit.leads (by decide)
  have there : openedDesk.HasEntity lend.owner := by decide
  have reachable : busyDesk.Reachable :=
    (opened.change (.edit (.addOperation lend) there)).of_leads leads
  obtain ⟨kept, place, listed, first, current⟩ :=
    reachable.operationsCurrent.since openedDesk lend opened there leads
  have begun : ((openedDesk.addOperation lend).entityAt ⟨0⟩).operations = [⟨0⟩] := by decide
  obtain rfl : place = 0 := by
    have bound := (List.getElem?_eq_some_iff.mp first).1
    exact Nat.lt_one_iff.mp (begun ▸ bound : place < [OperationId.mk 0].length)
  have last : (busyDesk.entityAt ⟨0⟩).operations[0]? = some ⟨4⟩ := by decide
  obtain rfl : listed = ⟨4⟩ := Option.some.inj (current.there.symm.trans last)
  exact ⟨reachable, by decide, by decide, kept, first, current⟩

end ClassModel.Model
