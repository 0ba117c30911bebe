import ClassModel.Proofs.Decimal.Ordering
import ClassModel.Proofs.Matching.Recording
import Mathlib.Data.List.Induction

/-! Correspondences that are recorded in parts.

What stands for a source is the first of the strongest correspondences offered for it. The choice
between what was chosen in two parts is the choice from both of them, so parts can be recorded apart
and merged in their order.
-/

set_option autoImplicit false

namespace ClassModel

open Decimal

namespace EntityMatch

/-- Of two correspondences of one source, the one that stands after both are recorded. -/
def stronger (first second : EntityMatch) : EntityMatch :=
  if second.score ≤ first.score then first else second

theorem stronger_assoc {first second third : EntityMatch} (number : first.score.isNaN = false)
    (secondNumber : second.score.isNaN = false) (thirdNumber : third.score.isNaN = false) :
    (first.stronger second).stronger third = first.stronger (second.stronger third) := by
  unfold stronger
  by_cases early : second.score ≤ first.score <;> by_cases late : third.score ≤ second.score
  · have both := le_trans_number thirdNumber secondNumber number late early
    simp only [if_pos early, if_pos late, if_pos both]
  · simp only [if_pos early, if_neg late]
  · simp only [if_neg early, if_pos late]
  · have both : ¬ third.score ≤ first.score := by
      rw [not_le_iff_lt secondNumber number] at early
      rw [not_le_iff_lt thirdNumber secondNumber] at late
      exact (not_le_iff_lt thirdNumber number).mpr
        (lt_trans_number number secondNumber thirdNumber early late)
    simp only [if_neg early, if_neg late, if_neg both]

theorem merge_stronger_assoc {first second third : Option EntityMatch}
    (number : ∀ entry ∈ first, entry.score.isNaN = false)
    (secondNumber : ∀ entry ∈ second, entry.score.isNaN = false)
    (thirdNumber : ∀ entry ∈ third, entry.score.isNaN = false) :
    Option.merge stronger (Option.merge stronger first second) third =
      Option.merge stronger first (Option.merge stronger second third) := by
  cases first with
  | none => simp
  | some early =>
    cases second with
    | none => simp
    | some middle =>
      cases third with
      | none => simp
      | some late =>
        exact congrArg some (stronger_assoc (number _ rfl) (secondNumber _ rfl) (thirdNumber _ rfl))

end EntityMatch

namespace Mapping

variable {mapping other : Mapping} {offered : EntityMatch}

/-! ## Lookups and sources -/

theorem get?_record (mapping : Mapping) (offered : EntityMatch) (asked : EntityId) :
    (mapping.record offered).get? asked =
      if asked = offered.source then
        Option.merge EntityMatch.stronger (mapping.get? asked) (some offered)
      else mapping.get? asked := by
  by_cases here : asked = offered.source
  · subst here
    rw [if_pos rfl]
    cases standing : mapping.get? offered.source with
    | none => rw [get?_record_of_none standing, Option.merge_none_left]
    | some existing =>
      rw [Option.merge_some_some, EntityMatch.stronger]
      by_cases weaker : offered.score ≤ existing.score
      · have refused : mapping.accepts offered = false := by simp [accepts, standing, weaker]
        rw [if_pos weaker, record, refused, if_neg Bool.false_ne_true, standing]
      · rw [if_neg weaker]
        exact get?_record_of_accepts (by simp [accepts, standing, weaker])
  · rw [if_neg here, get?_record_of_ne here]

-- Each source of the other mapping is met once, so what is looked up changes at most once.
theorem get?_merge (once : other.sources.Nodup) (asked : EntityId) :
    (mapping.merge other).get? asked =
      Option.merge EntityMatch.stronger (mapping.get? asked) (other.get? asked) := by
  obtain ⟨entries⟩ := other
  unfold merge
  induction entries generalizing mapping with
  | nil => exact (Option.merge_none_right).symm
  | cons entry rest ih =>
    obtain ⟨fresh, restOnce⟩ := List.nodup_cons.mp once
    rw [List.foldl_cons, ih restOnce, get?_record]
    by_cases here : asked = entry.source
    · subst here
      have later : get? ⟨rest⟩ entry.source = none := get?_eq_none_iff.mpr fresh
      have first : get? ⟨entry :: rest⟩ entry.source = some entry := by simp [get?]
      rw [if_pos rfl, later, first, Option.merge_none_right]
    · have skipped : get? ⟨entry :: rest⟩ asked = get? ⟨rest⟩ asked := by
        simp [get?, Ne.symm here]
      rw [if_neg here, skipped]

theorem sources_merge (once : other.sources.Nodup) :
    (mapping.merge other).sources =
      mapping.sources ++ other.sources.filter (· ∉ mapping.sources) := by
  obtain ⟨entries⟩ := other
  unfold merge
  induction entries generalizing mapping with
  | nil => exact (List.append_nil _).symm
  | cons entry rest ih =>
    obtain ⟨fresh, restOnce⟩ := List.nodup_cons.mp once
    rw [List.foldl_cons, ih restOnce, sources_record]
    show _ = mapping.sources ++
      (entry.source :: rest.map EntityMatch.source).filter (· ∉ mapping.sources)
    by_cases listed : entry.source ∈ mapping.sources
    · rw [if_pos listed, List.filter_cons_of_neg (by simpa using listed)]
    · have others : (rest.map EntityMatch.source).filter (· ∉ mapping.sources ++ [entry.source]) =
          (rest.map EntityMatch.source).filter (· ∉ mapping.sources) := by
        refine List.filter_congr fun source later => ?_
        have apart : source ≠ entry.source := fun same => fresh (same ▸ later)
        simp [apart]
      rw [if_neg listed, others, List.filter_cons_of_pos (by simpa using listed), List.append_assoc]
      rfl

theorem entries_eq_filterMap (once : mapping.sources.Nodup) :
    mapping.entries = mapping.sources.filterMap mapping.get? := by
  rw [List.filterMap_map, List.filterMap_congr (g := some), List.filterMap_some]
  exact fun entry member => get?_of_mem once member

theorem eq_of_get? (once : mapping.sources.Nodup) (sources : mapping.sources = other.sources)
    (same : ∀ asked, mapping.get? asked = other.get? asked) : mapping = other := by
  have entries : mapping.entries = other.entries := by
    rw [entries_eq_filterMap once, entries_eq_filterMap (sources ▸ once), sources, funext same]
  exact congrArg Mapping.mk entries

/-! ## Merging -/

/-- Each source is recorded once, and all scores are numbers. -/
structure Comparable (mapping : Mapping) : Prop where
  once : mapping.sources.Nodup
  number : ∀ entry ∈ mapping.entries, entry.score.isNaN = false

namespace Comparable

theorem number_get? (comparable : mapping.Comparable) {asked : EntityId} :
    ∀ entry ∈ mapping.get? asked, entry.score.isNaN = false :=
  fun entry found => comparable.number entry (mem_of_get? found)

theorem record (comparable : mapping.Comparable) (number : offered.score.isNaN = false) :
    (mapping.record offered).Comparable := by
  refine ⟨nodup_sources_record comparable.once, fun entry member => ?_⟩
  rcases mem_record member with rfl | earlier
  · exact number
  · exact comparable.number entry earlier

theorem merge_record (comparable : mapping.Comparable) (otherComparable : other.Comparable)
    (number : offered.score.isNaN = false) :
    mapping.merge (other.record offered) = (mapping.merge other).record offered := by
  have otherOnce := otherComparable.once
  have recordedOnce := (otherComparable.record number).once
  refine eq_of_get? ?_ ?_ fun asked => ?_
  · exact List.foldlRecOn (motive := fun soFar : Mapping => soFar.sources.Nodup) _ _
      comparable.once fun _ soFar _ _ => nodup_sources_record soFar
  · rw [sources_merge recordedOnce, sources_record, sources_record, sources_merge otherOnce]
    by_cases listed : offered.source ∈ mapping.sources <;>
      by_cases listedToo : offered.source ∈ other.sources <;>
      simp [-List.mem_map, listed, listedToo]
  · rw [get?_merge recordedOnce, get?_record, get?_record, get?_merge otherOnce]
    split
    · exact (EntityMatch.merge_stronger_assoc comparable.number_get? otherComparable.number_get?
        (by simpa using number)).symm
    · rfl

end Comparable

/-! ## Recording a sequence -/

/-- The mapping in which these correspondences are recorded one by one. -/
def ofOffers (offers : List EntityMatch) : Mapping := offers.foldl record empty

theorem ofOffers_concat (offers : List EntityMatch) (offered : EntityMatch) :
    ofOffers (offers ++ [offered]) = (ofOffers offers).record offered := by
  rw [ofOffers, List.foldl_append, List.foldl_cons, List.foldl_nil, ofOffers]

theorem comparable_ofOffers {offers : List EntityMatch}
    (numbers : ∀ offer ∈ offers, offer.score.isNaN = false) : (ofOffers offers).Comparable :=
  List.foldlRecOn (motive := Comparable) offers record ⟨List.nodup_nil, nofun⟩
    fun _ soFar offer member => soFar.record (numbers offer member)

theorem sources_ofOffers (offers : List EntityMatch) :
    (ofOffers offers).sources = (offers.map EntityMatch.source).eraseDups := by
  induction offers using List.reverseRecOn with
  | nil => rfl
  | append_singleton offers offered ih =>
    rw [ofOffers_concat, sources_record, ih, List.map_append, List.eraseDups_append]
    by_cases listed : offered.source ∈ offers.map EntityMatch.source <;>
      simp [-List.mem_map, listed, List.removeAll, List.eraseDups_cons]

theorem merge_ofOffers {offers more : List EntityMatch}
    (numbers : ∀ offer ∈ offers, offer.score.isNaN = false)
    (moreNumbers : ∀ offer ∈ more, offer.score.isNaN = false) :
    (ofOffers offers).merge (ofOffers more) = ofOffers (offers ++ more) := by
  induction more using List.reverseRecOn with
  | nil => rw [List.append_nil]; rfl
  | append_singleton more offered ih =>
    obtain ⟨soFar, last⟩ := List.forall_mem_append.mp moreNumbers
    have number := last offered List.mem_cons_self
    rw [ofOffers_concat, (comparable_ofOffers numbers).merge_record (comparable_ofOffers soFar)
      number, ih soFar, ← ofOffers_concat, List.append_assoc]

/-! ## What stands -/

/-- An entry is the earliest of the strongest correspondences offered for its source. -/
def FirstStrongest (offers : List EntityMatch) (entry : EntityMatch) : Prop :=
  ∃ before after, offers = before ++ entry :: after ∧
    (∀ other ∈ before, other.source = entry.source → other.score < entry.score) ∧
    ∀ other ∈ after, other.source = entry.source → other.score ≤ entry.score

namespace FirstStrongest

variable {offers : List EntityMatch} {entry : EntityMatch}

theorem mem (strongest : FirstStrongest offers entry) : entry ∈ offers := by
  obtain ⟨before, after, rfl, _⟩ := strongest
  exact List.mem_append_right _ List.mem_cons_self

theorem concat (strongest : FirstStrongest offers entry) {last : EntityMatch}
    (weaker : last.source = entry.source → last.score ≤ entry.score) :
    FirstStrongest (offers ++ [last]) entry := by
  obtain ⟨before, after, rfl, earlier, later⟩ := strongest
  refine ⟨before, after ++ [last], by rw [List.append_assoc, List.cons_append], earlier, ?_⟩
  intro other member
  rcases List.mem_append.mp member with among | added
  · exact later other among
  · obtain rfl := List.mem_singleton.mp added
    exact weaker

theorem score_le (strongest : FirstStrongest offers entry)
    (numbers : ∀ offer ∈ offers, offer.score.isNaN = false) :
    ∀ other ∈ offers, other.source = entry.source → other.score ≤ entry.score := by
  have number := numbers entry strongest.mem
  obtain ⟨before, after, rfl, earlier, later⟩ := strongest
  intro other member same
  rcases List.mem_append.mp member with among | rest
  · exact le_of_lt_number (numbers other member) number (earlier other among same)
  · rcases List.mem_cons.mp rest with rfl | among
    · exact le_refl_number number
    · exact later other among same

theorem last {last : EntityMatch}
    (exceeds : ∀ other ∈ offers, other.source = last.source → other.score < last.score) :
    FirstStrongest (offers ++ [last]) last :=
  ⟨offers, [], rfl, exceeds, nofun⟩

-- What exceeds the one that stood exceeds everything that came before.
theorem stronger (strongest : FirstStrongest offers entry)
    (numbers : ∀ offer ∈ offers, offer.score.isNaN = false) {offered : EntityMatch}
    (number : offered.score.isNaN = false) (same : entry.source = offered.source) :
    FirstStrongest (offers ++ [offered]) (entry.stronger offered) := by
  have entryNumber := numbers entry strongest.mem
  unfold EntityMatch.stronger
  by_cases weaker : offered.score ≤ entry.score
  · rw [if_pos weaker]
    exact strongest.concat fun _ => weaker
  · rw [if_neg weaker]
    have exceeded := (not_le_iff_lt number entryNumber).mp weaker
    refine last fun other member alike => ?_
    have below := strongest.score_le numbers other member (alike.trans same.symm)
    exact lt_of_le_of_lt_number (numbers other member) entryNumber number below exceeded

end FirstStrongest

theorem firstStrongest_ofOffers {offers : List EntityMatch}
    (numbers : ∀ offer ∈ offers, offer.score.isNaN = false) {asked : EntityId}
    {entry : EntityMatch} (found : (ofOffers offers).get? asked = some entry) :
    FirstStrongest offers entry := by
  induction offers using List.reverseRecOn generalizing entry with
  | nil => cases found
  | append_singleton offers offered ih =>
    obtain ⟨earlierNumbers, last⟩ := List.forall_mem_append.mp numbers
    have number := last offered List.mem_cons_self
    rw [ofOffers_concat, get?_record] at found
    by_cases here : asked = offered.source
    · subst here
      rw [if_pos rfl] at found
      cases standing : (ofOffers offers).get? offered.source with
      | none =>
        have fresh := get?_eq_none_iff.mp standing
        rw [sources_ofOffers, List.mem_eraseDups] at fresh
        rw [standing, Option.merge_none_left] at found
        obtain rfl := Option.some.inj found
        exact .last fun other member same => absurd (same ▸ List.mem_map_of_mem member) fresh
      | some existing =>
        rw [standing, Option.merge_some_some] at found
        obtain rfl := Option.some.inj found
        exact (ih earlierNumbers standing).stronger earlierNumbers number (source_of_get? standing)
    · rw [if_neg here] at found
      refine (ih earlierNumbers found).concat fun same => absurd ?_ here
      exact (source_of_get? found).symm.trans same.symm

/-! ## Chunks -/

theorem merge_chunks_ofOffers (chunks : List (List EntityMatch))
    (numbers : ∀ offer ∈ chunks.flatten, offer.score.isNaN = false) :
    (chunks.map ofOffers).foldl merge empty = ofOffers chunks.flatten := by
  induction chunks using List.reverseRecOn with
  | nil => rfl
  | append_singleton chunks chunk ih =>
    rw [List.flatten_append, List.flatten_singleton] at numbers
    obtain ⟨soFar, last⟩ := List.forall_mem_append.mp numbers
    rw [List.map_append, List.foldl_append, ih soFar, List.flatten_append, List.flatten_singleton,
      ← merge_ofOffers soFar last]
    rfl

/-- Chunks of a sequence that are recorded apart and merged in order give what recording the
sequence gives: of each source the first of its strongest correspondences, in the order in which
the sources come up. -/
theorem merge_chunks (chunks : List (List EntityMatch))
    (numbers : ∀ offer ∈ chunks.flatten, offer.score.isNaN = false) :
    (chunks.map ofOffers).foldl merge empty = ofOffers chunks.flatten ∧
      (∀ entry ∈ (ofOffers chunks.flatten).entries, FirstStrongest chunks.flatten entry) ∧
      (ofOffers chunks.flatten).sources.Nodup ∧
      (ofOffers chunks.flatten).sources =
        (chunks.flatten.map EntityMatch.source).eraseDups := by
  have once := (comparable_ofOffers numbers).once
  refine ⟨merge_chunks_ofOffers chunks numbers, fun entry member => ?_, once, sources_ofOffers _⟩
  exact firstStrongest_ofOffers numbers (get?_of_mem once member)

end Mapping

/-- Three chunks in which the first entity is offered a second target with the same score, and then
a third one with a greater score. -/
def offersInChunks : List (List EntityMatch) :=
  [[⟨⟨0⟩, ⟨4⟩, 0.5, []⟩, ⟨⟨1⟩, ⟨4⟩, 0.5, []⟩], [⟨⟨2⟩, ⟨5⟩, 0.25, []⟩, ⟨⟨0⟩, ⟨5⟩, 0.5, []⟩],
    [⟨⟨1⟩, ⟨5⟩, 0.5, []⟩, ⟨⟨0⟩, ⟨6⟩, 0.75, []⟩]]

theorem merge_offersInChunks :
    (∀ offer ∈ offersInChunks.flatten, offer.score.isNaN = false) ∧
    (Mapping.ofOffers offersInChunks.flatten).entries.map (fun entry =>
      (entry.source, entry.target)) = [(⟨0⟩, ⟨6⟩), (⟨1⟩, ⟨4⟩), (⟨2⟩, ⟨5⟩)] ∧
    (offersInChunks.map Mapping.ofOffers).foldl Mapping.merge .empty =
      Mapping.ofOffers offersInChunks.flatten := by
  have numbers : ∀ offer ∈ offersInChunks.flatten, offer.score.isNaN = false := by decide +kernel
  exact ⟨numbers, by decide +kernel, (Mapping.merge_chunks offersInChunks numbers).1⟩

end ClassModel
