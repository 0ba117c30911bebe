import ClassModel.Proofs.Features.Enumeration

/-! How deep composed paths are looked for.

One more step adds longer paths between the others and changes nothing else. Under the strict policy
nothing is added once there are as many steps as entities, for a path enters none of them twice.
-/

set_option autoImplicit false

namespace ClassModel.Model

variable {model : Model} {policy : PathPolicy}

/-! ## Shorter paths -/

-- The steps are counted down along a path, so the paths that go on through a role are one shorter.
theorem filter_pathsFrom_succ (steps : Nat) (previous : Option AssociationId)
    (seen : List EntityId) (id : EntityId) :
    (model.pathsFrom policy (steps + 1) previous seen id).filter (fun path => path.length ≤ steps) =
      model.pathsFrom policy steps previous seen id := by
  induction steps generalizing previous seen id with
  | zero =>
    refine List.filter_eq_nil_iff.mpr fun path listed => ?_
    have more := (mem_pathsFrom.mp listed).route.ne_nil
    simpa using more
  | succ steps ih =>
    have further : ∀ (role : AssociationId) (path : Path),
        decide ((Step.role role :: path).length ≤ steps + 1) = decide (path.length ≤ steps) :=
      fun role path => decide_eq_decide.mpr Nat.succ_le_succ_iff
    rw [pathsFrom, pathsFrom, List.filter_append, List.filter_flatMap]
    congr 1
    · refine List.filter_eq_self.mpr fun path listed => ?_
      obtain ⟨last, _, rfl⟩ := List.mem_map.mp listed
      simp
    · refine List.flatMap_congr fun role _ => ?_
      rw [List.filter_cons_of_pos (by simp)]
      split
      · rw [List.filter_map, ← ih]
        simp only [Function.comp_def, further]
      · rfl

/-! ## Strict paths -/

-- An entity that is not there offers nothing, so a path takes its steps at entities of the model.
theorem Offers.hasEntity {id : EntityId} {step : Step} (offered : model.Offers id step) :
    model.HasEntity id := by
  refine Classical.byContradiction fun missing => ?_
  have blank := model.entityAt_of_not_hasEntity id missing
  have alone : model.superclassChain id = [id] :=
    superclassChain_of_free (by simp [superclass, blank, default, Entity.named])
  cases offered with
  | ofAttribute defined => simp [definedAttributes, alone, blank, default, Entity.named] at defined
  | ofRole defined _ => simp [definedAssociations, alone, blank, default, Entity.named] at defined

theorem Route.hasEntity {id : EntityId} {path : Path} (route : model.Route id path) :
    ∀ entity ∈ id :: model.entered path, model.HasEntity entity := by
  induction route with
  | last offered => simpa using offered.hasEntity
  | through offered further ih =>
    intro entity member
    rw [entered_role_cons _ further.ne_nil] at member
    rcases List.mem_cons.mp member with rfl | later
    · exact offered.hasEntity
    · exact ih entity later

theorem Route.length_entered {id : EntityId} {path : Path} (route : model.Route id path) :
    (model.entered path).length + 1 = path.length := by
  induction route with
  | last => rfl
  | through _ further ih =>
    rw [entered_role_cons _ further.ne_nil, List.length_cons, List.length_cons, ih]

theorem length_le_of_mem_composedPaths {root : EntityId} {seen : List EntityId} {steps : Nat}
    {path : Path} (listed : path ∈ model.composedPaths .strict root seen steps) :
    path.length ≤ model.entityCount := by
  have goes := mem_pathsFrom.mp listed
  obtain ⟨distinct, unseen⟩ := goes.fresh rfl
  have once : (root :: model.entered path).Nodup :=
    List.nodup_cons.mpr ⟨fun again => unseen root again List.mem_cons_self, distinct⟩
  have bound := length_le_entityCount once goes.route.hasEntity
  rwa [List.length_cons, goes.route.length_entered] at bound

/-- Among the composed paths of one step more, those that are not longer are the composed paths
before, in the same order. Strict paths of more steps than there are entities do not exist. -/
theorem composedPaths_deeper (model : Model) (root : EntityId) (seen : List EntityId) :
    (∀ policy steps, (model.composedPaths policy root seen (steps + 1)).filter
        (fun path => path.length ≤ steps) = model.composedPaths policy root seen steps) ∧
      ∀ steps, model.entityCount ≤ steps →
        model.composedPaths .strict root seen steps =
          model.composedPaths .strict root seen model.entityCount := by
  have nested : ∀ policy steps, (model.composedPaths policy root seen (steps + 1)).filter
      (fun path => path.length ≤ steps) = model.composedPaths policy root seen steps :=
    fun policy steps => filter_pathsFrom_succ steps none (root :: seen) root
  refine ⟨nested, fun steps enough => ?_⟩
  induction steps, enough using Nat.le_induction with
  | base => rfl
  | succ steps enough ih =>
    rw [← ih, ← nested .strict steps]
    refine (List.filter_eq_self.mpr fun path listed => ?_).symm
    exact decide_eq_true (Nat.le_trans (length_le_of_mem_composedPaths listed) enough)

theorem composedPaths_deeper_shop : shop.entityCount ≤ 5 ∧
    shop.composedPaths .strict ⟨0⟩ [] 5 = shop.composedPaths .strict ⟨0⟩ [] shop.entityCount ∧
      shop.composedPaths .strict ⟨0⟩ [] shop.entityCount =
        [[.role ⟨0⟩], [.role ⟨0⟩, .attribute ⟨0⟩], [.role ⟨0⟩, .role ⟨1⟩]] := by
  have enough : shop.entityCount ≤ 5 := by decide
  exact ⟨enough, (composedPaths_deeper shop ⟨0⟩ []).2 5 enough, by decide +kernel⟩

end ClassModel.Model
