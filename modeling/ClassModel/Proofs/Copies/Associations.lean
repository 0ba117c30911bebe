import ClassModel.Proofs.Copies.Hierarchy
import ClassModel.Proofs.Model.FeatureLists

/-! Copied associations: between the copies of the ends, and linked as their originals are.

First every association is copied without its inverse, and then the copies are linked pair by pair.
Linking overwrites both sides. What it writes on the other side is what that side's own turn would
write, because inverses name each other.
-/

set_option autoImplicit false

namespace ClassModel

/-- What is left of an association without what linking it to an inverse may write. -/
def Association.withoutInverse (association : Association) : Association :=
  { association with role1 := none, inverse := none }

/-- The second association is the first one after links to inverses: a name of the near end stays. -/
structure Relinked (before after : Association) : Prop where
  parts : after.withoutInverse = before.withoutInverse
  nearRole : ∀ name, before.role1 = some name → after.role1 = some name

theorem Relinked.refl (association : Association) : Relinked association association :=
  ⟨rfl, fun _ named => named⟩

theorem Relinked.trans {first second third : Association} (earlier : Relinked first second)
    (later : Relinked second third) : Relinked first third where
  parts := later.parts.trans earlier.parts
  nearRole name named := later.nearRole name (earlier.nearRole name named)

-- A fold of noted steps along a list without repetitions, as for plain steps.
theorem Noted.foldlM_of_nodup {Item State : Type} {step : State → Item → Noted State}
    {motive : List Item → Noted State → Prop} {items : List Item} {start : Noted State}
    (once : items.Nodup) (initial : motive [] start)
    (next : ∀ done item result, item ∈ items → item ∉ done → motive done result →
      motive (done ++ [item]) (result >>= (step · item))) :
    motive items (start >>= fun state => items.foldlM step state) := by
  have folded : (start >>= fun state => items.foldlM step state) =
      items.foldl (fun result item => result >>= (step · item)) start := by
    clear once initial next
    induction items generalizing start with
    | nil => simp
    | cons first rest ih => simp only [List.foldlM_cons, List.foldl_cons, ← ih, bind_assoc]
  rw [folded]
  exact foldl_of_nodup once initial next

namespace Model

/-! ## Edits of associations -/

section

variable (model : Model)

theorem associationAt_addAssociation (added : Association) (asked : AssociationId) :
    (model.addAssociation added).associationAt asked =
      if asked = model.nextAssociation then added else model.associationAt asked := by
  cases asked with
  | mk index =>
    simp only [associationAt, addAssociation, modifyEntity, nextAssociation, AssociationId.mk.injEq,
      Array.getElem?_push]
    split <;> rfl

theorem associations_addAssociation (added : Association) {asked : EntityId}
    (existing : model.HasEntity asked) :
    ((model.addAssociation added).entityAt asked).associations =
      if asked = added.entity1 then (model.entityAt asked).associations ++ [model.nextAssociation]
      else (model.entityAt asked).associations := by
  unfold addAssociation
  rw [entityAt_modifyEntity]
  by_cases here : asked = added.entity1
  · rw [if_pos here, if_pos ⟨here.symm, existing⟩]
    rfl
  · rw [if_neg here, if_neg fun both => here both.1.symm]
    rfl

theorem attributes_addAssociation (added : Association) (asked : EntityId) :
    ((model.addAssociation added).entityAt asked).attributes =
      (model.entityAt asked).attributes :=
  part_modifyEntity Entity.attributes _ _ asked _ fun _ => rfl

theorem associationAt_modifyAssociation (changed asked : AssociationId)
    (change : Association → Association) (existing : model.HasAssociation changed) :
    (model.modifyAssociation changed change).associationAt asked =
      if asked = changed then change (model.associationAt asked) else model.associationAt asked := by
  simp only [associationAt, modifyAssociation, Array.getElem?_modify]
  by_cases here : asked = changed
  · subst here
    have there : asked.index < model.associations.size := existing
    simp [there]
  · have apart : changed.index ≠ asked.index := by
      intro same
      cases changed
      cases asked
      exact here (congrArg AssociationId.mk same.symm)
    rw [if_neg apart, if_neg here]

theorem relinked_modifyAssociation (changed asked : AssociationId)
    (change : Association → Association)
    (relinks : ∀ association, Relinked association (change association)) :
    Relinked (model.associationAt asked)
      ((model.modifyAssociation changed change).associationAt asked) := by
  simp only [associationAt, modifyAssociation, Array.getElem?_modify]
  split
  · cases model.associations[asked.index]? with
    | none => exact .refl _
    | some association => exact relinks association
  · exact .refl _

theorem relinked_linkInverse (first second asked : AssociationId) :
    Relinked (model.associationAt asked)
      ((model.linkInverse first second).associationAt asked) := by
  have named : ∀ (role : String) (association : Association), Relinked association
      { association with role1 := association.role1.or (some role) } := fun role association =>
    ⟨rfl, fun name known => by simp [known]⟩
  have inverse : ∀ (id : AssociationId) (association : Association), Relinked association
      { association with inverse := some id } := fun id association => ⟨rfl, fun _ named => named⟩
  unfold linkInverse
  dsimp only
  refine (((relinked_modifyAssociation _ _ _ _ (inverse second)).trans
    (relinked_modifyAssociation _ _ _ _ (inverse first))).trans
    (relinked_modifyAssociation _ _ _ _ (named _))).trans
    (relinked_modifyAssociation _ _ _ _ (named _))

variable {model} in
theorem inverse_linkInverse {first second : AssociationId} (firstThere : model.HasAssociation first)
    (secondThere : model.HasAssociation second) (asked : AssociationId) :
    ((model.linkInverse first second).associationAt asked).inverse =
      if asked = second then some first
      else if asked = first then some second
      else (model.associationAt asked).inverse := by
  have there : (model.modifyAssociation first ({ · with inverse := some second })).HasAssociation
      second := by simpa [HasAssociation, modifyAssociation] using secondThere
  unfold linkInverse
  dsimp only
  rw [part_modifyAssociation Association.inverse, part_modifyAssociation Association.inverse,
    associationAt_modifyAssociation _ _ _ _ there,
    associationAt_modifyAssociation _ _ _ _ firstThere]
  · split
    · rfl
    · split <;> rfl
  all_goals exact fun _ => rfl

end

/-! ## Copies of associations -/

/-- What carrying associations over begins with: the originals are in the first model, and their
copies are new, different and without associations. -/
structure ReadyCopies (start begun : Model) (copies : EntityCopies) : Prop where
  apart : GrownApart start begun
  new : ∀ copy, copies.HasCopy copy → ¬ start.HasEntity copy
  existing : ∀ original copy, copies.copyOf? original = some copy → start.HasEntity original
  there : ∀ original copy, copies.copyOf? original = some copy → begun.HasEntity copy
  distinct : ∀ first second copy, copies.copyOf? first = some copy →
    copies.copyOf? second = some copy → first = second
  blank : ∀ original copy, copies.copyOf? original = some copy →
    (begun.entityAt copy).associations = []

/-- Two models with the same attributes, in the same lists. -/
structure SameAttributes (before after : Model) : Prop where
  lists : ∀ id, (after.entityAt id).attributes = (before.entityAt id).attributes
  attributes : after.attributes = before.attributes

theorem SameButLinks.sameAttributes {before after : Model} (same : SameButLinks before after) :
    SameAttributes before after where
  lists id := (congrArg Entity.attributes (same.entities id) :)
  attributes := same.attributes

theorem Declares.sameAttributes {before after : Model} {id : EntityId} {attributes : List Attribute}
    (declares : Declares before id attributes) (same : SameAttributes before after) :
    Declares after id attributes where
  declared := by
    rw [← declares.declared, declaredAttributes, declaredAttributes, same.lists]
    exact List.map_congr_left fun listed _ => by simp only [attributeAt, same.attributes]
  there listed member := by
    rw [same.lists] at member
    rw [HasAttribute, same.attributes]
    exact declares.there listed member

/-- The report of an association that is left out. -/
def leftOutFinding (model : Model) (original : EntityId) (role : AssociationId) : Diagnostic :=
  .unresolved (model.name original)
    ("association " ++ (model.associationAt role).role2 ++ " to " ++ model.name (model.far role) ++
      " (no copy)")

/-- Of each original a number of associations has been dealt with: those that lead to a copied entity
have a copy, in their order, and the others are reported. -/
structure RolesCopied (start begun : Model) (copies : EntityCopies)
    (done : EntityId → List AssociationId) (state : AssociationCopying) (notes : List Note) :
    Prop where
  copying : CopyingFrom copies begun state
  unchanged : SameAttributes begun state.model
  found : ∀ pair ∈ state.copied, state.copied.lookup pair.1 = some pair.2
  lists : ∀ original copy, copies.copyOf? original = some copy →
    (state.model.entityAt copy).associations =
      (done original).filterMap fun role => state.copied.lookup role
  only : ∀ role roleCopy, state.copied.lookup role = some roleCopy →
    ∃ original copy far, role ∈ done original ∧ copies.copyOf? original = some copy ∧
      copies.copyOf? (start.far role) = some far ∧ state.model.associationAt roleCopy =
        { start.associationAt role with entity1 := copy, entity2 := far, inverse := none }
  all : ∀ original, ∀ role ∈ done original, ∀ far, copies.copyOf? (start.far role) = some far →
    ∃ roleCopy, state.copied.lookup role = some roleCopy
  distinct : ∀ first second roleCopy, state.copied.lookup first = some roleCopy →
    state.copied.lookup second = some roleCopy → first = second
  reported : ∀ original, ∀ role ∈ done original, copies.copyOf? (start.far role) = none →
    .diagnostic (begun.leftOutFinding original role) ∈ notes

/-- The associations that have been dealt with, and one more. -/
def withRole (done : EntityId → List AssociationId) (original : EntityId) (role : AssociationId)
    (asked : EntityId) : List AssociationId :=
  if asked = original then done asked ++ [role] else done asked

theorem mem_withRole {done : EntityId → List AssociationId} {original asked : EntityId}
    {role earlier : AssociationId} : earlier ∈ withRole done original role asked ↔
      earlier ∈ done asked ∨ asked = original ∧ earlier = role := by
  unfold withRole
  split
  · rename_i here
    simp [here]
  · rename_i other
    simp [other]

section

variable {copies : EntityCopies} {state : AssociationCopying} (original : EntityId)
  {role : AssociationId}

theorem copyAssociation_of_none (alone : copies.copyOf? (state.model.far role) = none) :
    copyAssociation copies original state role =
      .of state [state.model.leftOutFinding original role] := by
  unfold copyAssociation
  dsimp only
  rw [show copies.copyOf? (state.model.associationAt role).entity2 = none from alone]
  rfl

theorem copyAssociation_of_some {far : EntityId}
    (copied : copies.copyOf? (state.model.far role) = some far) :
    copyAssociation copies original state role =
      pure
        { model := state.model.addAssociation
            { state.model.associationAt role with
              entity1 := copies.retarget original, entity2 := far, inverse := none }
          copied := insertPair AssociationId.index role state.model.nextAssociation
            state.copied } := by
  unfold copyAssociation
  dsimp only
  rw [show copies.copyOf? (state.model.associationAt role).entity2 = some far from copied]

end

section

variable {start begun : Model} {copies : EntityCopies} (ready : ReadyCopies start begun copies)
  {done : EntityId → List AssociationId} {state : AssociationCopying} {notes : List Note}

include ready

theorem ReadyCopies.kept (copying : CopyingFrom copies begun state) : start.Extends state.model :=
  (ready.apart.carriesAssociations ready.new ready.apart.kept copying.carried).kept

-- The names and the old associations are what they were at the beginning.
theorem ReadyCopies.leftOutFinding_eq (copying : CopyingFrom copies begun state)
    {role : AssociationId} (existing : start.HasAssociation role) (original : EntityId) :
    state.model.leftOutFinding original role = begun.leftOutFinding original role := by
  have same : state.model.associationAt role = begun.associationAt role :=
    ((ready.kept copying).associationAt existing).trans
      (ready.apart.kept.associationAt existing).symm
  have names := copying.carried.sameLabels.name
  simp only [leftOutFinding, far, same, names]

omit ready in
theorem leftOutFinding_of_extends {model : Model} (kept : start.Extends model) {original : EntityId}
    (existing : start.HasEntity original) {role : AssociationId}
    (there : start.HasAssociation role) :
    model.leftOutFinding original role =
      .unresolved (start.name original) ("association " ++ (start.associationAt role).role2 ++ " to " ++
        model.name (start.far role) ++ " (no copy)") := by
  rw [leftOutFinding, far, kept.associationAt there, kept.name existing]
  rfl

variable (soFar : RolesCopied start begun copies done state notes) {original copy : EntityId}
  (found : copies.copyOf? original = some copy) {role : AssociationId}
  (existing : start.HasAssociation role) (fresh : ∀ asked, role ∉ done asked)

include soFar fresh

omit ready in
theorem RolesCopied.lookup_of_fresh : state.copied.lookup role = none := by
  refine Option.eq_none_iff_forall_ne_some.mpr fun roleCopy known => ?_
  obtain ⟨asked, _, _, among, _⟩ := soFar.only role roleCopy known
  exact fresh asked among

-- Whatever has been copied is neither the next original nor the next copy.
omit ready in
theorem RolesCopied.older {earlier earlierCopy : AssociationId}
    (known : state.copied.lookup earlier = some earlierCopy) :
    earlier ≠ role ∧ earlierCopy ≠ state.model.nextAssociation := by
  constructor
  · rintro rfl
    rw [soFar.lookup_of_fresh fresh] at known
    cases known
  · rintro rfl
    obtain ⟨there, _⟩ := soFar.copying.added _ (mem_of_lookup known)
    exact Nat.lt_irrefl _ there

include existing

theorem RolesCopied.leaveOut (alone : copies.copyOf? (start.far role) = none) :
    RolesCopied start begun copies (withRole done original role)
      (copyAssociation copies original state role).value
      (notes ++ (copyAssociation copies original state role).notes) := by
  have far : state.model.far role = start.far role :=
    congrArg Association.entity2 ((ready.kept soFar.copying).associationAt existing)
  rw [copyAssociation_of_none original (far ▸ alone),
    ready.leftOutFinding_eq soFar.copying existing]
  show RolesCopied start begun copies _ state
    (notes ++ [.diagnostic (begun.leftOutFinding original role)])
  have unknown := soFar.lookup_of_fresh fresh
  refine ⟨soFar.copying, soFar.unchanged, soFar.found, ?lists, ?only, ?all, soFar.distinct, ?reported⟩
  case lists =>
    intro asked askedCopy foundAsked
    rw [soFar.lists asked askedCopy foundAsked, withRole]
    split
    · simp [unknown]
    · rfl
  case only =>
    intro earlier roleCopy known
    obtain ⟨asked, near, far, among, rest⟩ := soFar.only earlier roleCopy known
    exact ⟨asked, near, far, mem_withRole.mpr (.inl among), rest⟩
  case all =>
    intro asked earlier among far copied
    rcases mem_withRole.mp among with before | ⟨rfl, rfl⟩
    · exact soFar.all asked earlier before far copied
    · rw [alone] at copied
      cases copied
  case reported =>
    intro asked earlier among unlisted
    rcases mem_withRole.mp among with before | ⟨rfl, rfl⟩
    · exact List.mem_append_left _ (soFar.reported asked earlier before unlisted)
    · simp

include found

theorem RolesCopied.carryOver {far : EntityId} (copied : copies.copyOf? (start.far role) = some far) :
    RolesCopied start begun copies (withRole done original role)
      (copyAssociation copies original state role).value
      (notes ++ (copyAssociation copies original state role).notes) := by
  have same : state.model.associationAt role = start.associationAt role :=
    (ready.kept soFar.copying).associationAt existing
  have farEnd : state.model.far role = start.far role := congrArg Association.entity2 same
  have target : copies.retarget original = copy := by simp [EntityCopies.retarget, found]
  have copying := soFar.copying.copyAssociation
    (target ▸ EntityCopies.hasCopy_of_copyOf? found) role
  rw [copyAssociation_of_some original (farEnd ▸ copied), target, same] at copying ⊢
  generalize next : state.model.nextAssociation = roleCopy at copying ⊢
  let added : Association :=
    { start.associationAt role with entity1 := copy, entity2 := far, inverse := none }
  let after : AssociationCopying :=
    ⟨state.model.addAssociation added, insertPair AssociationId.index role roleCopy state.copied⟩
  show RolesCopied start begun copies _ after (notes ++ [])
  have lookup : ∀ asked, after.copied.lookup asked =
      if asked = role then some roleCopy else state.copied.lookup asked :=
    lookup_insertPair fun _ _ same => congrArg AssociationId.mk same
  have associations : ∀ asked, after.model.associationAt asked =
      if asked = roleCopy then added else state.model.associationAt asked := fun asked =>
    next ▸ state.model.associationAt_addAssociation added asked
  have older : ∀ earlier earlierCopy, state.copied.lookup earlier = some earlierCopy →
      earlier ≠ role ∧ earlierCopy ≠ roleCopy := fun earlier earlierCopy known =>
    next ▸ soFar.older fresh known
  have mapped : ∀ asked, (done asked).filterMap (fun earlier => after.copied.lookup earlier) =
      (done asked).filterMap fun earlier => state.copied.lookup earlier := by
    refine fun asked => List.filterMap_congr fun earlier among => ?_
    rw [lookup, if_neg]
    rintro rfl
    exact fresh asked among
  refine ⟨copying, ?unchanged, ?found, ?lists, ?only, ?all, ?distinct, ?reported⟩
  case unchanged =>
    refine ⟨fun id => ?_, soFar.unchanged.attributes⟩
    exact (state.model.attributes_addAssociation added id).trans (soFar.unchanged.lists id)
  case found =>
    intro pair member
    rw [lookup]
    rcases mem_insertPair member with rfl | earlier
    · exact if_pos rfl
    · have known := soFar.found pair earlier
      rw [if_neg (older _ _ known).1, known]
  case lists =>
    intro asked askedCopy foundAsked
    have there : state.model.HasEntity askedCopy := Nat.lt_of_lt_of_eq
      (ready.there asked askedCopy foundAsked) soFar.copying.carried.sameLabels.count.symm
    rw [state.model.associations_addAssociation added there, next,
      soFar.lists asked askedCopy foundAsked, withRole]
    by_cases here : asked = original
    · have sameCopy : askedCopy = copy := by
        rw [here, found] at foundAsked
        exact (Option.some.inj foundAsked).symm
      rw [if_pos sameCopy, if_pos here, List.filterMap_append, mapped]
      simp [lookup]
    · have other : askedCopy ≠ copy := by
        rintro rfl
        exact here (ready.distinct asked original askedCopy foundAsked found)
      rw [if_neg other, if_neg here, mapped]
  case only =>
    intro earlier earlierCopy known
    rw [lookup] at known
    rw [associations]
    split at known
    · rename_i last
      subst last
      refine ⟨original, copy, far, mem_withRole.mpr (.inr ⟨rfl, rfl⟩), found, copied, ?_⟩
      exact if_pos (Option.some.inj known).symm
    · obtain ⟨asked, near, farCopy, among, foundNear, foundFar, kept⟩ :=
        soFar.only earlier earlierCopy known
      refine ⟨asked, near, farCopy, mem_withRole.mpr (.inl among), foundNear, foundFar, ?_⟩
      rw [if_neg (older earlier earlierCopy known).2, kept]
  case all =>
    intro asked earlier among farCopy foundFar
    rw [lookup]
    rcases mem_withRole.mp among with before | ⟨rfl, rfl⟩
    · obtain ⟨earlierCopy, known⟩ := soFar.all asked earlier before farCopy foundFar
      exact ⟨earlierCopy, by rw [if_neg (older _ _ known).1, known]⟩
    · exact ⟨roleCopy, if_pos rfl⟩
  case distinct =>
    exact lookup_insertPair_injective (fun _ _ same => congrArg AssociationId.mk same)
      soFar.distinct fun earlier known => (older earlier roleCopy known).2 rfl
  case reported =>
    intro asked earlier among unlisted
    rcases mem_withRole.mp among with before | ⟨rfl, rfl⟩
    · exact List.mem_append_left _ (soFar.reported asked earlier before unlisted)
    · rw [copied] at unlisted
      cases unlisted

theorem RolesCopied.step : RolesCopied start begun copies (withRole done original role)
    (copyAssociation copies original state role).value
    (notes ++ (copyAssociation copies original state role).notes) := by
  cases farEnd : copies.copyOf? (start.far role) with
  | none => exact soFar.leaveOut ready existing fresh farEnd
  | some far => exact soFar.carryOver ready found existing fresh farEnd

end

theorem RolesCopied.lookup_eq_none_iff {start begun : Model} {copies : EntityCopies}
    {done : EntityId → List AssociationId} {state : AssociationCopying} {notes : List Note}
    (rolesCopied : RolesCopied start begun copies done state notes) {original : EntityId}
    {role : AssociationId} (among : role ∈ done original) :
    state.copied.lookup role = none ↔ copies.copyOf? (start.far role) = none := by
  constructor
  · intro unknown
    refine Option.eq_none_iff_forall_ne_some.mpr fun far copied => ?_
    obtain ⟨roleCopy, known⟩ := rolesCopied.all original role among far copied
    rw [unknown] at known
    cases known
  · intro alone
    refine Option.eq_none_iff_forall_ne_some.mpr fun roleCopy known => ?_
    obtain ⟨_, _, far, _, _, copied, _⟩ := rolesCopied.only role roleCopy known
    rw [alone] at copied
    cases copied

/-! ## All associations of all originals -/

namespace ListsApart

variable {model : Model} (sound : ListsApart model) {id : EntityId}

include sound

theorem nodup_associations : (model.entityAt id).associations.Nodup :=
  (sound.once .associations id).of_map _

theorem hasAssociation {role : AssociationId} (listed : role ∈ (model.entityAt id).associations) :
    model.HasAssociation role :=
  sound.inRange .associations id _ (List.mem_map_of_mem listed)

theorem eq_of_association {other : EntityId} {role : AssociationId}
    (listed : role ∈ (model.entityAt id).associations)
    (listedToo : role ∈ (model.entityAt other).associations) : id = other :=
  sound.apart .associations id other role.index (List.mem_map_of_mem listed)
    (List.mem_map_of_mem listedToo)

end ListsApart

/-- The associations of some entities. -/
def rolesOf (model : Model) (entities : List EntityId) (asked : EntityId) : List AssociationId :=
  if asked ∈ entities then (model.entityAt asked).associations else []

theorem mem_rolesOf {model : Model} {entities : List EntityId} {asked : EntityId}
    {role : AssociationId} : role ∈ model.rolesOf entities asked ↔
      asked ∈ entities ∧ role ∈ (model.entityAt asked).associations := by
  unfold rolesOf
  split
  · rename_i member
    simp [member]
  · rename_i missing
    simp [missing]

theorem rolesOf_congr (model : Model) {entities others : List EntityId}
    (same : ∀ id, id ∈ entities ↔ id ∈ others) : model.rolesOf entities = model.rolesOf others := by
  funext asked
  simp only [rolesOf, same]

section

variable {start begun : Model} {copies : EntityCopies} (ready : ReadyCopies start begun copies)
  (sound : ListsApart start)

include ready sound

theorem RolesCopied.rolesOfNext {done : List EntityId} {result : Noted AssociationCopying}
    (soFar : RolesCopied start begun copies (start.rolesOf done) result.value result.notes)
    {original copy : EntityId} (found : copies.copyOf? original = some copy)
    (fresh : original ∉ done) :
    RolesCopied start begun copies (start.rolesOf (done ++ [original]))
      (result >>= (copyAssociationsOf copies · original)).value
      (result >>= (copyAssociationsOf copies · original)).notes := by
  have kept := ready.kept soFar.copying
  have roles : (result.value.model.entityAt original).associations =
      (start.entityAt original).associations := by
    rw [kept.entityAt (ready.existing original copy found)]
  have all : start.rolesOf (done ++ [original]) = Function.update (start.rolesOf done) original
      (start.entityAt original).associations := by
    funext asked
    by_cases here : asked = original
    · subst here
      simp [rolesOf]
    · simp [rolesOf, here]
  have unfolded : (result >>= (copyAssociationsOf copies · original)) =
      result >>= fun state => (start.entityAt original).associations.foldlM
        (copyAssociation copies original) state := by
    show (⟨_, _⟩ : Noted AssociationCopying) = ⟨_, _⟩
    simp only [copyAssociationsOf, roles]
  rw [all, unfolded]
  refine Noted.foldlM_of_nodup
    (motive := fun roles result => RolesCopied start begun copies
      (Function.update (start.rolesOf done) original roles) result.value result.notes)
    sound.nodup_associations ?initial ?next
  case initial =>
    have none : start.rolesOf done original = [] := by simp [rolesOf, fresh]
    rw [← none, Function.update_eq_self]
    exact soFar
  case next =>
    intro roles role result member new soFar
    have unlisted : ∀ asked, role ∉ Function.update (start.rolesOf done) original roles asked := by
      intro asked
      by_cases here : asked = original
      · subst here
        simpa using new
      · have apart : role ∉ (start.entityAt asked).associations := fun listed =>
          here (sound.eq_of_association listed member)
        simp [here, rolesOf, apart]
    have more : Function.update (start.rolesOf done) original (roles ++ [role]) =
        withRole (Function.update (start.rolesOf done) original roles) original role := by
      funext asked
      by_cases here : asked = original
      · subst here
        simp [withRole]
      · simp [withRole, here]
    rw [more]
    exact soFar.step ready found (sound.hasAssociation member) unlisted

theorem ReadyCopies.rolesCopied {order : List EntityId} (once : order.Nodup)
    (copied : ∀ original ∈ order, ∃ copy, copies.copyOf? original = some copy) :
    RolesCopied start begun copies (start.rolesOf order)
      (order.foldlM (copyAssociationsOf copies) ({ model := begun } : AssociationCopying)).value
      (order.foldlM (copyAssociationsOf copies) ({ model := begun } : AssociationCopying)).notes := by
  rw [← pure_bind ({ model := begun } : AssociationCopying) (order.foldlM (copyAssociationsOf copies))]
  refine Noted.foldlM_of_nodup
    (motive := fun done result => RolesCopied start begun copies (start.rolesOf done) result.value
      result.notes) once ?_ fun done original result member fresh soFar => ?_
  · have none : start.rolesOf [] = fun _ => [] := rfl
    rw [none]
    refine ⟨⟨.refl, by simp⟩, ⟨fun _ => rfl, rfl⟩, by simp, fun original copy found => ?lists,
      by simp, by simp, by simp, by simp⟩
    exact ready.blank original copy found
  · obtain ⟨copy, found⟩ := copied original member
    exact soFar.rolesOfNext ready sound found fresh

end

/-! ## Inverses -/

/-- Inverses name each other. -/
def InversesAgree (model : Model) : Prop :=
  ∀ first second, (model.associationAt first).inverse = some second →
    (model.associationAt second).inverse = some first

theorem inversesAgree_iff (model : Model) : model.InversesAgree ↔
    ∀ index < model.associations.size, ∀ second ∈ (model.associationAt ⟨index⟩).inverse,
      (model.associationAt second).inverse = some ⟨index⟩ := by
  constructor
  · exact fun agree index _ second named => agree ⟨index⟩ second named
  · intro agree first second named
    by_cases there : first.index < model.associations.size
    · exact agree first.index there second named
    · have blank : model.associationAt first = default := by
        simp [associationAt, Nat.le_of_not_lt there]
      rw [blank] at named
      cases named

instance (model : Model) : Decidable model.InversesAgree :=
  decidable_of_iff _ model.inversesAgree_iff.symm

/-- The copy of the inverse of an association. -/
def inverseCopy? (model : Model) (copied : List (AssociationId × AssociationId))
    (role : AssociationId) : Option AssociationId :=
  (model.associationAt role).inverse.bind fun inverse => copied.lookup inverse

/-- Linking in progress: a copy is linked to the copy of the inverse, or not at all yet. -/
structure InversesLinked (start : Model) (copied : List (AssociationId × AssociationId))
    (before : Model) (done : List (AssociationId × AssociationId)) (model : Model) : Prop where
  kept : start.Extends model
  grown : NoLarger before model
  relinked : ∀ asked, Relinked (before.associationAt asked) (model.associationAt asked)
  linked : ∀ role roleCopy, copied.lookup role = some roleCopy →
    (model.associationAt roleCopy).inverse = start.inverseCopy? copied role ∨
      (role, roleCopy) ∉ done ∧ (model.associationAt roleCopy).inverse = none

section

variable {start begun : Model} {copies : EntityCopies} {done : EntityId → List AssociationId}
  {state : AssociationCopying} {notes : List Note} (ready : ReadyCopies start begun copies)
  (rolesCopied : RolesCopied start begun copies done state notes)
  (inStart : ∀ original, ∀ role ∈ done original, start.HasAssociation role)
  (agree : start.InversesAgree)

include ready rolesCopied inStart agree

-- The other side gets what its own turn would give it, since it names this side as its inverse.
theorem InversesLinked.step {linked : List (AssociationId × AssociationId)} {model : Model}
    (soFar : InversesLinked start state.copied state.model linked model)
    {pair : AssociationId × AssociationId} (member : pair ∈ state.copied) :
    InversesLinked start state.copied state.model (linked ++ [pair])
      (linkCopiedInverse state.copied model pair) := by
  obtain ⟨role, roleCopy⟩ := pair
  have known := rolesCopied.found _ member
  have existing : start.HasAssociation role := by
    obtain ⟨original, _, _, among, _⟩ := rolesCopied.only role roleCopy known
    exact inStart original role among
  have there : ∀ pair ∈ state.copied, model.HasAssociation pair.2 ∧ ¬ start.HasAssociation pair.2 := by
    intro pair among
    obtain ⟨added, new⟩ := rolesCopied.copying.added pair among
    exact ⟨Nat.lt_of_lt_of_le added soFar.grown.associations,
      fun old => new (ready.apart.kept.associations.lt_size old)⟩
  have inverse : (model.associationAt role).inverse.bind (fun inverse => state.copied.lookup inverse) =
      start.inverseCopy? state.copied role := by
    rw [soFar.kept.associationAt existing, inverseCopy?]
  unfold linkCopiedInverse
  dsimp only
  rw [inverse]
  cases target : start.inverseCopy? state.copied role with
  | none =>
    refine ⟨soFar.kept, soFar.grown, soFar.relinked, fun other otherCopy knownToo => ?_⟩
    rcases soFar.linked other otherCopy knownToo with right | ⟨waiting, unlinked⟩
    · exact .inl right
    · by_cases here : other = role
      · subst here
        exact .inl (unlinked.trans target.symm)
      · exact .inr ⟨by simp [waiting, here], unlinked⟩
  | some inverseCopy =>
    obtain ⟨inverse, named, knownInverse⟩ := Option.bind_eq_some_iff.mp target
    have inverseMember := mem_of_lookup knownInverse
    obtain ⟨copyThere, copyNew⟩ := there _ member
    obtain ⟨inverseThere, inverseNew⟩ := there _ inverseMember
    refine ⟨soFar.kept.linkInverse copyNew inverseNew,
      soFar.grown.trans (model.noLarger_linkInverse _ _),
      fun asked => (soFar.relinked asked).trans (model.relinked_linkInverse _ _ asked),
      fun other otherCopy knownToo => ?_⟩
    rw [inverse_linkInverse copyThere inverseThere]
    split
    · rename_i here
      subst here
      obtain rfl := rolesCopied.distinct other inverse otherCopy knownToo knownInverse
      refine .inl ?_
      rw [inverseCopy?, agree role other named]
      exact known.symm
    · split
      · rename_i here
        subst here
        obtain rfl := rolesCopied.distinct other role otherCopy knownToo known
        exact .inl target.symm
      · rename_i other here
        rcases soFar.linked _ otherCopy knownToo with right | ⟨waiting, unlinked⟩
        · exact .inl right
        · exact .inr ⟨by simp [waiting, here], unlinked⟩

theorem inversesLinked_foldl {pairs : List (AssociationId × AssociationId)}
    (among : ∀ pair ∈ pairs, pair ∈ state.copied) :
    InversesLinked start state.copied state.model pairs
      (pairs.foldl (linkCopiedInverse state.copied) state.model) := by
  induction pairs using List.reverseRecOn with
  | nil =>
    refine ⟨ready.kept rolesCopied.copying, .refl _, fun _ => .refl _, fun role roleCopy known => ?_⟩
    obtain ⟨_, _, _, _, _, _, same⟩ := rolesCopied.only role roleCopy known
    exact .inr ⟨List.not_mem_nil, by rw [List.foldl_nil, same]⟩
  | append_singleton pairs last ih =>
    rw [List.foldl_append]
    exact (ih fun pair member => among pair (List.mem_append_left _ member)).step ready rolesCopied
      inStart agree (among last (by simp))

end

end Model

end ClassModel
