import ClassModel.Matching.Mapping
import Mathlib.Data.List.Nodup

/-! What recording a correspondence does to a mapping.

At most the correspondence of one source is changed or added. A source that is recorded once keeps
its place, and a new one comes last.
-/

set_option autoImplicit false

namespace ClassModel.Mapping

abbrev sources (mapping : Mapping) : List EntityId := mapping.entries.map EntityMatch.source

/-! ## Looking up -/

theorem mem_of_get? {mapping : Mapping} {source : EntityId} {entry : EntityMatch}
    (found : mapping.get? source = some entry) : entry ∈ mapping.entries :=
  List.mem_of_find?_eq_some found

theorem source_of_get? {mapping : Mapping} {source : EntityId} {entry : EntityMatch}
    (found : mapping.get? source = some entry) : entry.source = source :=
  beq_iff_eq.mp (List.find?_some found :)

theorem mem_sources_of_get? {mapping : Mapping} {source : EntityId} {entry : EntityMatch}
    (found : mapping.get? source = some entry) : source ∈ mapping.sources :=
  source_of_get? found ▸ List.mem_map_of_mem (mem_of_get? found)

theorem get?_eq_none_iff {mapping : Mapping} {source : EntityId} :
    mapping.get? source = none ↔ source ∉ mapping.sources := by
  simp [get?, List.find?_eq_none]

theorem get?_of_mem {mapping : Mapping} (once : mapping.sources.Nodup) {entry : EntityMatch}
    (member : entry ∈ mapping.entries) : mapping.get? entry.source = some entry := by
  cases found : mapping.get? entry.source with
  | none => exact absurd (List.mem_map_of_mem member) (get?_eq_none_iff.mp found)
  | some other =>
    exact congrArg some (List.inj_on_of_nodup_map once (mem_of_get? found) member
      (source_of_get? found))

/-! ## Replacing -/

theorem mem_replaceFirst {offered entry : EntityMatch} {entries : List EntityMatch}
    (member : entry ∈ replaceFirst offered entries) : entry = offered ∨ entry ∈ entries := by
  induction entries with
  | nil => exact .inl (List.mem_singleton.mp member)
  | cons first rest ih =>
    unfold replaceFirst at member
    split at member
    · rcases List.mem_cons.mp member with same | later
      · exact .inl same
      · exact .inr (List.mem_cons_of_mem _ later)
    · rcases List.mem_cons.mp member with same | later
      · exact .inr (same ▸ List.mem_cons_self)
      · exact (ih later).imp_right (List.mem_cons_of_mem _)

-- A correspondence takes the place of the one of its source, or comes last.
theorem sources_replaceFirst (offered : EntityMatch) (entries : List EntityMatch) :
    (replaceFirst offered entries).map EntityMatch.source =
      if offered.source ∈ entries.map EntityMatch.source then entries.map EntityMatch.source
      else entries.map EntityMatch.source ++ [offered.source] := by
  induction entries with
  | nil => rfl
  | cons first rest ih =>
    by_cases same : first.source = offered.source
    · simp [replaceFirst, same]
    · have other : offered.source ≠ first.source := fun same' => same same'.symm
      simp only [replaceFirst, if_neg same, List.map_cons, ih, List.mem_cons, other, false_or]
      split <;> rfl

theorem find?_replaceFirst (offered : EntityMatch) (entries : List EntityMatch) (asked : EntityId) :
    (replaceFirst offered entries).find? (·.source == asked) =
      if asked = offered.source then some offered else entries.find? (·.source == asked) := by
  induction entries with
  | nil =>
    by_cases here : asked = offered.source
    · simp [replaceFirst, here]
    · simp [replaceFirst, here, Ne.symm here]
  | cons first rest ih =>
    unfold replaceFirst
    by_cases here : asked = offered.source
    · subst here
      by_cases same : first.source = offered.source
      · simp [same]
      · simp [same, ih]
    · rw [if_neg here] at ih
      rw [if_neg here]
      by_cases same : first.source = offered.source
      · simp [same, Ne.symm here]
      · simp [same, List.find?_cons, ih]

/-! ## Recording -/

variable {mapping : Mapping} {offered : EntityMatch}

theorem mem_record {entry : EntityMatch} (member : entry ∈ (mapping.record offered).entries) :
    entry = offered ∨ entry ∈ mapping.entries := by
  unfold record at member
  split at member
  · exact mem_replaceFirst member
  · exact .inr member

theorem get?_record_of_ne {asked : EntityId} (other : asked ≠ offered.source) :
    (mapping.record offered).get? asked = mapping.get? asked := by
  unfold record
  split
  · exact (find?_replaceFirst offered mapping.entries asked).trans (if_neg other)
  · rfl

theorem get?_record_of_accepts (accepted : mapping.accepts offered = true) :
    (mapping.record offered).get? offered.source = some offered := by
  unfold record
  rw [if_pos accepted]
  exact (find?_replaceFirst offered mapping.entries offered.source).trans (if_pos rfl)

-- Nothing stands against the first correspondence of a source.
theorem get?_record_of_none (free : mapping.get? offered.source = none) :
    (mapping.record offered).get? offered.source = some offered :=
  get?_record_of_accepts (by simp [accepts, free])

theorem sources_record (mapping : Mapping) (offered : EntityMatch) :
    (mapping.record offered).sources =
      if offered.source ∈ mapping.sources then mapping.sources
      else mapping.sources ++ [offered.source] := by
  unfold record
  split
  · exact sources_replaceFirst offered mapping.entries
  · rename_i refused
    have listed : offered.source ∈ mapping.sources := by
      refine Classical.byContradiction fun new => refused ?_
      simp [accepts, get?_eq_none_iff.mpr new]
    rw [if_pos listed]

theorem sources_record_subset {done : List EntityId} (visited : mapping.sources ⊆ done) :
    (mapping.record offered).sources ⊆ done ++ [offered.source] := by
  have earlier := List.subset_append_of_subset_left [offered.source] visited
  rw [sources_record]
  split
  · exact earlier
  · exact List.append_subset.mpr ⟨earlier, List.subset_append_right _ _⟩

theorem nodup_sources_record (once : mapping.sources.Nodup) :
    (mapping.record offered).sources.Nodup := by
  rw [sources_record]
  split
  · exact once
  · rename_i new
    exact once.append (List.nodup_singleton _) (by simpa using new)

end ClassModel.Mapping
