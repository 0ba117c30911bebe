import Mathlib.Data.List.Induction
import Mathlib.Data.List.Nodup

/-! Lists that are read, searched and put together item by item. -/

set_option autoImplicit false

namespace ClassModel

-- What is dropped item by item is dropped before.
theorem flatMap_ite_nil {Item Result : Type} (items : List Item) (keep : Item → Bool)
    (results : Item → List Result) :
    items.flatMap (fun item => if keep item then results item else []) =
      (items.filter keep).flatMap results := by
  induction items with
  | nil => rfl
  | cons first rest ih => by_cases kept : keep first <;> simp [kept, ih]

-- What is read is read from an item.
theorem mem_of_mapM_eq_ok {Error α β : Type} {change : α → Except Error β} {items : List α}
    {changed : List β} (read : items.mapM change = .ok changed) :
    ∀ result ∈ changed, ∃ item ∈ items, change item = .ok result := by
  induction items generalizing changed with
  | nil =>
    cases read
    simp
  | cons item rest ih =>
    rw [List.mapM_cons] at read
    cases first : change item with
    | error => simp [first, bind, Except.bind] at read
    | ok value =>
    cases later : rest.mapM change with
    | error => simp [first, later, bind, Except.bind] at read
    | ok values =>
    simp only [first, later, bind, Except.bind, pure, Except.pure, Except.ok.injEq] at read
    subst read
    simpa [first] using fun result member => Or.inr (ih later result member)

-- A search from the end finds the last place, counted from the end.
theorem findIdx?_reverse_eq_some_iff {α : Type} (items : List α) (holds : α → Bool)
    (place : Nat) :
    ((items.reverse.findIdx? holds).map fun fromEnd => items.length - 1 - fromEnd) = some place ↔
      ∃ there : place < items.length, holds items[place] = true ∧
        ∀ later (inside : later < items.length), place < later → ¬ holds items[later] = true := by
  simp only [Option.map_eq_some_iff, List.findIdx?_eq_some_iff_getElem, List.length_reverse,
    List.getElem_reverse]
  constructor
  · rintro ⟨fromEnd, ⟨inside, found, before⟩, rfl⟩
    refine ⟨by omega, found, fun later there after => ?_⟩
    have earlier := before (items.length - 1 - later) (by omega)
    have same : items.length - 1 - (items.length - 1 - later) = later := by omega
    simpa only [same] using earlier
  · rintro ⟨there, found, last⟩
    have same : items.length - 1 - (items.length - 1 - place) = place := by omega
    refine ⟨items.length - 1 - place, ⟨by omega, by simpa only [same] using found, ?_⟩, same⟩
    intro earlier before
    exact last _ (by omega) (by omega)

theorem lookup_pair_cons {Key Value : Type} [DecidableEq Key] (pairs : List (Key × Value))
    (key asked : Key) (value : Value) : List.lookup asked ((key, value) :: pairs) =
      if asked = key then some value else pairs.lookup asked := by
  by_cases same : asked = key
  · simp [same]
  · simp [List.lookup_cons, beq_eq_false_iff_ne.mpr same, same]

-- Two items at which one list is split are in one place, or each is on the other side of the other.
theorem eq_or_apart_of_split {Item : Type} {before after otherBefore otherAfter : List Item}
    {first second : Item} (same : before ++ first :: after = otherBefore ++ second :: otherAfter) :
    first = second ∨ first ∈ otherBefore ∧ second ∈ after ∨ second ∈ before ∧ first ∈ otherAfter := by
  rcases List.append_eq_append_iff.mp same with ⟨between, rfl, rest⟩ | ⟨between, rfl, rest⟩
  all_goals
    cases between with
    | nil => simp_all
    | cons item between => simp_all

/-! ## Folds -/

-- A fold along a list, with the items that are done in view.
theorem foldl_of_split {Item State : Type} {step : State → Item → State}
    {motive : List Item → State → Prop} {items : List Item} {start : State}
    (initial : motive [] start)
    (next : ∀ done item rest state, items = done ++ item :: rest → motive done state →
      motive (done ++ [item]) (step state item)) :
    motive items (items.foldl step start) := by
  induction items using List.reverseRecOn with
  | nil => exact initial
  | append_singleton done item ih =>
    rw [List.foldl_append]
    refine next done item [] _ rfl (ih fun done item rest state split => ?_)
    exact next done item (rest ++ [_]) state (by rw [split, List.append_assoc, List.cons_append])

-- Without repetitions, whoever is next is not one of those that are done.
theorem foldl_of_nodup {Item State : Type} {step : State → Item → State}
    {motive : List Item → State → Prop} {items : List Item} {start : State} (once : items.Nodup)
    (initial : motive [] start)
    (next : ∀ done item state, item ∈ items → item ∉ done → motive done state →
      motive (done ++ [item]) (step state item)) :
    motive items (items.foldl step start) := by
  refine foldl_of_split initial fun done item rest state split soFar => ?_
  subst split
  have fresh : item ∉ done := fun early =>
    (List.nodup_append.mp once).2.2 item early item List.mem_cons_self rfl
  exact next done item state (List.mem_append_right _ List.mem_cons_self) fresh soFar

/-! ## Repetitions -/

section

variable {Item : Type} [BEq Item] [LawfulBEq Item]

theorem nodup_eraseDups (items : List Item) : items.eraseDups.Nodup := by
  match items with
  | [] => exact .nil
  | first :: rest =>
    rw [List.eraseDups_cons, List.nodup_cons]
    exact ⟨by simp [List.mem_eraseDups], nodup_eraseDups _⟩
termination_by items.length
decreasing_by exact Nat.lt_succ_of_le (List.length_filter_le _ _)

theorem eraseDups_concat (items : List Item) (item : Item) [Decidable (item ∈ items)] :
    (items ++ [item]).eraseDups =
      if item ∈ items then items.eraseDups else items.eraseDups ++ [item] := by
  rw [List.eraseDups_append]
  split <;> rename_i member <;> simp [List.removeAll, member, List.eraseDups_cons]

theorem eraseDups_eq_self {items : List Item} (once : items.Nodup) : items.eraseDups = items := by
  induction items with
  | nil => rfl
  | cons first rest ih =>
    obtain ⟨new, restOnce⟩ := List.nodup_cons.mp once
    have others : rest.filter (fun later => !later == first) = rest :=
      List.filter_eq_self.mpr fun later member => by
        have other : later ≠ first := fun same => new (same ▸ member)
        simp [other]
    rw [List.eraseDups_cons, others, ih restOnce]

theorem eraseDups_filter (items : List Item) (keep : Item → Bool) :
    (items.filter keep).eraseDups = items.eraseDups.filter keep := by
  induction items using List.reverseRecOn with
  | nil => rfl
  | append_singleton done item ih =>
    rw [List.filter_append, eraseDups_concat done]
    by_cases kept : keep item
    · have single : [item].filter keep = [item] := by simp [kept]
      rw [single, eraseDups_concat]
      by_cases member : item ∈ done <;> simp [member, kept, ih]
    · by_cases member : item ∈ done <;> simp [member, kept, ih]

theorem find?_eraseDups (items : List Item) (keep : Item → Bool) :
    items.eraseDups.find? keep = items.find? keep := by
  rw [← List.head?_filter, ← List.head?_filter, ← eraseDups_filter]
  cases items.filter keep with
  | nil => rfl
  | cons first rest => rw [List.eraseDups_cons, List.head?_cons, List.head?_cons]

theorem mem_iff_of_eraseDups {first second : List Item} (same : first.eraseDups = second.eraseDups)
    (item : Item) : item ∈ first ↔ item ∈ second := by
  rw [← List.mem_eraseDups, same, List.mem_eraseDups]

theorem eraseDups_append_congr {first second firstLater secondLater : List Item}
    (same : first.eraseDups = second.eraseDups)
    (later : firstLater.eraseDups = secondLater.eraseDups) :
    (first ++ firstLater).eraseDups = (second ++ secondLater).eraseDups := by
  have fresh : firstLater.removeAll first = firstLater.removeAll second :=
    List.filter_congr fun item _ => by simp only [List.elem_eq_mem, mem_iff_of_eraseDups same]
  rw [List.eraseDups_append, List.eraseDups_append, same, fresh, List.removeAll, List.removeAll,
    eraseDups_filter, eraseDups_filter, later]

/-! ## Places -/

-- One more is in front of an item that is not the first, if the first is among those counted.
theorem countP_idxOf_cons {items order : List Item} (once : items.Nodup) {first item : Item}
    (behind : item ≠ first) [Decidable (first ∈ items)] :
    (items.countP fun other => (first :: order).idxOf other < (first :: order).idxOf item) =
      ((items.erase first).countP fun other => order.idxOf other < order.idxOf item) +
        if first ∈ items then 1 else 0 := by
  have later : (items.erase first).countP (fun other =>
        (first :: order).idxOf other < (first :: order).idxOf item) =
      (items.erase first).countP fun other => order.idxOf other < order.idxOf item := by
    refine List.countP_congr fun other member => ?_
    have different : other ≠ first := (once.mem_erase_iff.mp member).1
    simp [List.idxOf_cons_ne _ different.symm, List.idxOf_cons_ne _ behind.symm]
  have front : (first :: order).idxOf first < (first :: order).idxOf item := by
    rw [List.idxOf_cons_self, List.idxOf_cons_ne _ behind.symm]
    exact Nat.succ_pos _
  rw [← later]
  split
  · rename_i among
    rw [(List.perm_cons_erase among).countP_eq]
    exact List.countP_cons_of_pos (decide_eq_true front)
  · rename_i other
    rw [List.erase_of_not_mem other, Nat.add_zero]

section

variable {part whole : List Item} (once : whole.Nodup) (sub : part.Sublist whole)
  {first second : Item} (secondIn : second ∈ part)

include once sub secondIn

theorem idxOf_lt_of_sublist (before : part.idxOf first < part.idxOf second) :
    whole.idxOf first < whole.idxOf second := by
  have inOrder : whole.Pairwise fun earlier later => whole.idxOf earlier < whole.idxOf later := by
    refine List.pairwise_iff_getElem.mpr fun _ _ _ _ before => ?_
    simpa only [once.idxOf_getElem] using before
  have there := List.idxOf_lt_length_iff.mpr secondIn
  have kept := List.pairwise_iff_getElem.mp (inOrder.sublist sub) _ _ (Nat.lt_trans before there)
    there before
  simpa only [List.getElem_idxOf] using kept

theorem idxOf_lt_iff_of_sublist (firstIn : first ∈ part) :
    part.idxOf first < part.idxOf second ↔ whole.idxOf first < whole.idxOf second := by
  refine ⟨idxOf_lt_of_sublist once sub secondIn, fun before => ?_⟩
  rcases Nat.lt_trichotomy (part.idxOf first) (part.idxOf second) with sooner | same | later
  · exact sooner
  · rw [(List.idxOf_inj firstIn).mp same] at before
    exact absurd before (Nat.lt_irrefl _)
  · exact absurd before (Nat.lt_asymm (idxOf_lt_of_sublist once sub firstIn later))

end

end

end ClassModel
