import ClassModel.Features.Paths
import ClassModel.Proofs.Inheritance.Defined

/-! The composed paths of an entity, exactly.

A path is a route: each step is offered by the entity it is taken at, and each role but the last
enters the entity on its far side. The enumeration lists every route that its policy admits, and
each of them once.
-/

set_option autoImplicit false

namespace ClassModel

@[simp] theorem Path.roles_attribute_cons (last : AttributeId) (rest : Path) :
    Path.roles (.attribute last :: rest) = Path.roles rest := rfl

@[simp] theorem Path.roles_role_cons (role : AssociationId) (rest : Path) :
    Path.roles (.role role :: rest) = role :: Path.roles rest := rfl

namespace Model

/-- What may be the next step of a path at an entity. -/
inductive Offers (model : Model) (id : EntityId) : Step → Prop where
  | ofAttribute {last : AttributeId} (defined : last ∈ model.definedAttributes id) :
      Offers model id (.attribute last)
  | ofRole {role : AssociationId} (defined : role ∈ model.definedAssociations id)
      (inside : ¬ model.crossesBoundary id role) : Offers model id (.role role)

/-- A path from an entity on. Only the last step may be an attribute. -/
inductive Route (model : Model) : EntityId → Path → Prop where
  | last {id : EntityId} {step : Step} (offered : model.Offers id step) : Route model id [step]
  | through {id : EntityId} {role : AssociationId} {rest : Path}
      (offered : model.Offers id (.role role)) (further : Route model (model.far role) rest) :
      Route model id (.role role :: rest)

/-- The entities a path enters: the far sides of its roles, without the last step. -/
def entered (model : Model) (path : Path) : List EntityId :=
  (Path.roles path.dropLast).map model.far

/-- A route of limited length, as a policy admits it from a root. -/
structure IsComposedPath (model : Model) (policy : PathPolicy) (root : EntityId)
    (seen : List EntityId) (steps : Nat) (path : Path) : Prop where
  short : path.length ≤ steps
  route : model.Route root path
  /-- A strict path enters nothing it has seen: not the root, and no entity twice. -/
  fresh : policy = .strict → (root :: model.entered path).Nodup ∧
    ∀ id ∈ model.entered path, id ∉ seen
  /-- Where all paths count, only a step straight back is excluded. -/
  turns : policy = .allPaths →
    path.roles.IsChain fun previous next => ¬ model.isForbiddenInverse previous next

/-- A route that goes on from the entities seen so far and the role it came by. -/
structure Continues (model : Model) (policy : PathPolicy) (previous : Option AssociationId)
    (seen : List EntityId) (steps : Nat) (id : EntityId) (path : Path) : Prop where
  short : path.length ≤ steps
  route : model.Route id path
  fresh : policy = .strict → (model.entered path).Nodup ∧ ∀ id ∈ model.entered path, id ∉ seen
  turns : policy = .allPaths →
    (previous.toList ++ path.roles).IsChain fun previous next =>
      ¬ model.isForbiddenInverse previous next

variable {model : Model} {policy : PathPolicy}

theorem Route.ne_nil {id : EntityId} {path : Path} (route : model.Route id path) : path ≠ [] := by
  cases route <;> simp

@[simp] theorem entered_singleton (step : Step) : model.entered [step] = [] := rfl

theorem entered_role_cons (role : AssociationId) {rest : Path} (more : rest ≠ []) :
    model.entered (.role role :: rest) = model.far role :: model.entered rest := by
  unfold entered
  rw [List.dropLast_cons_of_ne_nil more]
  rfl

theorem mem_openRoles {previous : Option AssociationId} {id : EntityId} {role : AssociationId} :
    role ∈ model.openRoles policy previous id ↔ model.Offers id (.role role) ∧
      (policy = .allPaths → ∀ last ∈ previous, ¬ model.isForbiddenInverse last role) := by
  unfold openRoles
  rw [List.mem_filter]
  constructor
  · rintro ⟨defined, passes⟩
    rw [Bool.and_eq_true, Bool.not_eq_true'] at passes
    refine ⟨.ofRole defined (by simp [passes.1]), ?_⟩
    rintro rfl last ⟨⟩
    simpa using passes.2
  · rintro ⟨⟨⟩, turn⟩
    rename_i defined inside
    refine ⟨defined, ?_⟩
    rw [Bool.and_eq_true]
    refine ⟨by simpa using inside, ?_⟩
    cases policy with
    | strict => rfl
    | allPaths =>
      cases previous with
      | none => rfl
      | some last => simpa using turn rfl last rfl

theorem openRoles_none (policy : PathPolicy) (id : EntityId) : model.openRoles policy none id =
    (model.definedAssociations id).filter fun role => !model.crossesBoundary id role := by
  unfold openRoles
  cases policy <;> simp

section

variable {previous : Option AssociationId} {seen : List EntityId} {steps : Nat} {id : EntityId}

theorem continues_attribute {last : AttributeId} :
    model.Continues policy previous seen (steps + 1) id [.attribute last] ↔
      last ∈ model.definedAttributes id := by
  constructor
  · intro goes
    cases goes.route with
    | last offered =>
      cases offered with
      | ofAttribute defined => exact defined
  · intro defined
    refine ⟨by simp, .last (.ofAttribute defined), fun _ => by simp, fun _ => ?_⟩
    rw [Path.roles_attribute_cons]
    cases previous <;> simp [Path.roles]

theorem continues_role {role : AssociationId} :
    model.Continues policy previous seen (steps + 1) id [.role role] ↔
      role ∈ model.openRoles policy previous id := by
  rw [mem_openRoles]
  have turns : ((previous.toList ++ Path.roles [.role role]).IsChain fun previous next =>
      ¬ model.isForbiddenInverse previous next) ↔
      ∀ last ∈ previous, ¬ model.isForbiddenInverse last role := by
    rw [Path.roles_role_cons]
    cases previous <;> simp [Path.roles]
  constructor
  · intro goes
    cases goes.route with
    | last offered => exact ⟨offered, fun all => turns.mp (goes.turns all)⟩
    | through _ further => exact absurd rfl further.ne_nil
  · rintro ⟨offered, turn⟩
    exact ⟨by simp, .last offered, fun _ => by simp, fun all => turns.mpr (turn all)⟩

theorem continues_role_cons {role : AssociationId} {rest : Path} (more : rest ≠ []) :
    model.Continues policy previous seen (steps + 1) id (.role role :: rest) ↔
      role ∈ model.openRoles policy previous id ∧ policy.enters seen (model.far role) ∧
        model.Continues policy (some role) (model.far role :: seen) steps (model.far role)
          rest := by
  rw [mem_openRoles]
  have turns : ((previous.toList ++ Path.roles (.role role :: rest)).IsChain fun previous next =>
      ¬ model.isForbiddenInverse previous next) ↔
      (∀ last ∈ previous, ¬ model.isForbiddenInverse last role) ∧
        ((some role).toList ++ Path.roles rest).IsChain fun previous next =>
          ¬ model.isForbiddenInverse previous next := by
    rw [Path.roles_role_cons]
    cases previous <;> simp
  constructor
  · intro goes
    cases goes.route with
    | last => exact absurd rfl more
    | through offered further =>
      refine ⟨⟨offered, fun all => (turns.mp (goes.turns all)).1⟩, ?_,
        ⟨Nat.le_of_succ_le_succ goes.short, further, fun strict => ?_,
          fun all => (turns.mp (goes.turns all)).2⟩⟩
      · cases policy with
        | allPaths => rfl
        | strict =>
          have fresh := (goes.fresh rfl).2
          rw [entered_role_cons role more] at fresh
          simpa [PathPolicy.enters] using fresh _ List.mem_cons_self
      · have fresh := goes.fresh strict
        rw [entered_role_cons role more, List.nodup_cons] at fresh
        refine ⟨fresh.1.2, fun entity enter => ?_⟩
        rw [List.mem_cons, not_or]
        refine ⟨?_, fresh.2 entity (List.mem_cons_of_mem _ enter)⟩
        rintro rfl
        exact fresh.1.1 enter
  · rintro ⟨⟨offered, turn⟩, enters, goes⟩
    refine ⟨Nat.succ_le_succ goes.short, .through offered goes.route, fun strict => ?_,
      fun all => turns.mpr ⟨turn all, goes.turns all⟩⟩
    subst strict
    have unseen : model.far role ∉ seen := by simpa [PathPolicy.enters] using enters
    obtain ⟨distinct, fresh⟩ := goes.fresh rfl
    rw [entered_role_cons role more, List.nodup_cons]
    refine ⟨⟨fun again => fresh _ again List.mem_cons_self, distinct⟩, fun entity enter => ?_⟩
    rcases List.mem_cons.mp enter with rfl | later
    · exact unseen
    · exact fun old => fresh entity later (List.mem_cons_of_mem _ old)

theorem mem_pathsFrom_succ {path : Path} :
    path ∈ model.pathsFrom policy (steps + 1) previous seen id ↔
      (∃ last ∈ model.definedAttributes id, path = [.attribute last]) ∨
        ∃ role ∈ model.openRoles policy previous id, path = [.role role] ∨
          policy.enters seen (model.far role) ∧ ∃ rest ∈ model.pathsFrom policy steps (some role)
            (model.far role :: seen) (model.far role), path = .role role :: rest := by
  rw [pathsFrom, List.mem_append, List.mem_map, List.mem_flatMap]
  refine or_congr (exists_congr fun last => and_congr_right fun _ => eq_comm)
    (exists_congr fun role => and_congr_right fun _ => ?_)
  rw [List.mem_cons]
  refine or_congr_right ?_
  split
  · rename_i enters
    rw [List.mem_map]
    simp [enters, eq_comm]
  · rename_i refused
    simp [refused]

end

-- The number of steps is the measure; a longer path continues from the far side of its first role.
theorem mem_pathsFrom {steps : Nat} {previous : Option AssociationId} {seen : List EntityId}
    {id : EntityId} {path : Path} :
    path ∈ model.pathsFrom policy steps previous seen id ↔
      model.Continues policy previous seen steps id path := by
  induction steps generalizing previous seen id path with
  | zero =>
    constructor
    · intro member
      cases member
    · intro goes
      exact absurd (List.length_eq_zero_iff.mp (Nat.le_zero.mp goes.short)) goes.route.ne_nil
  | succ steps ih =>
    rw [mem_pathsFrom_succ]
    constructor
    · rintro (⟨last, defined, rfl⟩ | ⟨role, opened, rfl | ⟨enters, rest, among, rfl⟩⟩)
      · exact continues_attribute.mpr defined
      · exact continues_role.mpr opened
      · have goes := ih.mp among
        exact (continues_role_cons goes.route.ne_nil).mpr ⟨opened, enters, goes⟩
    · intro goes
      cases goes.route with
      | @last _ step offered =>
        cases offered with
        | ofAttribute defined => exact .inl ⟨_, defined, rfl⟩
        | ofRole => exact .inr ⟨_, continues_role.mp goes, .inl rfl⟩
      | @through _ role rest _ further =>
        obtain ⟨opened, enters, later⟩ := (continues_role_cons further.ne_nil).mp goes
        exact .inr ⟨role, opened, .inr ⟨enters, rest, ih.mpr later, rfl⟩⟩

theorem nodup_openRoles (sound : ListsApart model) (previous : Option AssociationId)
    (id : EntityId) : (model.openRoles policy previous id).Nodup :=
  (sound.nodup_definedAssociations id).filter _

-- Whatever is listed for a role starts with it.
theorem head?_of_role {role : AssociationId} {entering : Bool} {later : List Path} {path : Path}
    (member : path ∈ [.role role] :: if entering then later.map (.role role :: ·) else []) :
    path.head? = some (.role role) := by
  rcases List.mem_cons.mp member with rfl | further
  · rfl
  · split at further
    · obtain ⟨rest, _, rfl⟩ := List.mem_map.mp further
      rfl
    · cases further

-- No path is listed twice: its first step tells where in the list it stands.
theorem nodup_pathsFrom (sound : ListsApart model) (steps : Nat) (previous : Option AssociationId)
    (seen : List EntityId) (id : EntityId) :
    (model.pathsFrom policy steps previous seen id).Nodup := by
  induction steps generalizing previous seen id with
  | zero => exact .nil
  | succ steps ih =>
    rw [pathsFrom, List.nodup_append, List.nodup_flatMap]
    refine ⟨?attributes, ⟨?own, ?different⟩, ?kinds⟩
    case attributes =>
      exact (sound.nodup_definedAttributes id).map fun _ _ same => by cases same; rfl
    case own =>
      intro role _
      rw [List.nodup_cons]
      split
      · refine ⟨fun again => ?_, (ih _ _ _).map fun _ _ same => (List.cons.inj same).2⟩
        obtain ⟨rest, among, same⟩ := List.mem_map.mp again
        exact (mem_pathsFrom.mp among).route.ne_nil (List.cons.inj same).2
      · exact ⟨by simp, .nil⟩
    case different =>
      refine (nodup_openRoles sound previous id).imp ?_
      intro first second different path one other
      have same := (head?_of_role one).symm.trans (head?_of_role other)
      cases same
      exact different rfl
    case kinds =>
      intro single listed path member
      obtain ⟨last, _, rfl⟩ := List.mem_map.mp listed
      obtain ⟨role, _, inside⟩ := List.mem_flatMap.mp member
      rintro rfl
      cases head?_of_role inside

/-- The composed paths of a reachable model are exactly the routes of limited length that the policy
admits, each listed once. -/
theorem composedPaths_exact (reachable : model.Reachable) (policy : PathPolicy) (root : EntityId)
    (seen : List EntityId) (steps : Nat) :
    (model.composedPaths policy root seen steps).Nodup ∧
      ∀ path, path ∈ model.composedPaths policy root seen steps ↔
        model.IsComposedPath policy root seen steps path := by
  refine ⟨nodup_pathsFrom reachable.listsApart _ _ _ _, fun path => ?_⟩
  rw [composedPaths, mem_pathsFrom]
  constructor
  · rintro ⟨short, route, fresh, turns⟩
    refine ⟨short, route, fun strict => ?_, turns⟩
    obtain ⟨distinct, unseen⟩ := fresh strict
    have notRoot : root ∉ model.entered path := fun enter => unseen root enter List.mem_cons_self
    exact ⟨List.nodup_cons.mpr ⟨notRoot, distinct⟩,
      fun id enter old => unseen id enter (List.mem_cons_of_mem _ old)⟩
  · rintro ⟨short, route, fresh, turns⟩
    refine ⟨short, route, fun strict => ?_, turns⟩
    obtain ⟨distinct, unseen⟩ := fresh strict
    obtain ⟨notRoot, distinct⟩ := List.nodup_cons.mp distinct
    refine ⟨distinct, fun id enter old => ?_⟩
    rcases List.mem_cons.mp old with rfl | old
    · exact notRoot enter
    · exact unseen id enter old

/-- Persons with orders, and orders with the person who buys. -/
def shop : Model :=
  [Edit.insertEntity (.named "Person"), .insertEntity (.named "Order"),
    .attachAttribute ⟨1⟩ { name := "total", type := .primitive "double", owner := ⟨1⟩ },
    .addAssociation { entity1 := ⟨0⟩, entity2 := ⟨1⟩, role2 := "orders", card2 := .many },
    .addAssociation { entity1 := ⟨1⟩, entity2 := ⟨0⟩, role2 := "buyer" },
    .linkInverse ⟨0⟩ ⟨1⟩].foldl Edit.apply .empty

theorem reachable_shop : shop.Reachable :=
  Reachable.empty.of_leads (EditsFit.leads (by decide))

/-- A strict path may end in a role back to the root, but it does not go on from there. -/
theorem composedPaths_shop :
    shop.Reachable ∧ (shop.composedPaths .strict ⟨0⟩ [] 3).Nodup ∧
      [.role ⟨0⟩, .role ⟨1⟩] ∈ shop.composedPaths .strict ⟨0⟩ [] 3 ∧
      [.role ⟨0⟩, .role ⟨1⟩, .role ⟨0⟩] ∉ shop.composedPaths .strict ⟨0⟩ [] 3 := by
  have orders : shop.Offers ⟨0⟩ (.role ⟨0⟩) := .ofRole (by decide +kernel) (by decide)
  have buyer : shop.Offers ⟨1⟩ (.role ⟨1⟩) := .ofRole (by decide +kernel) (by decide)
  obtain ⟨nodup, listed⟩ := composedPaths_exact reachable_shop .strict ⟨0⟩ [] 3
  refine ⟨reachable_shop, nodup, (listed _).mpr ?_, fun member => ?_⟩
  · exact ⟨by decide, .through orders (.last buyer), fun _ => by decide, nofun⟩
  · have distinct := (((listed _).mp member).fresh rfl).1
    exact absurd distinct (by decide)

end Model

end ClassModel
