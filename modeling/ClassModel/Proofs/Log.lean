import ClassModel.Note
import ClassModel.Proofs.Lists

/-! What is in a log after entries have been added: what was in it before, and what was added, each
where it came first.

Logs are also put into other logs. However they were nested, a log holds what a single log would that
was given the whole stream of entries, and it may look for repeats in a set beside its entries.
-/

set_option autoImplicit false

namespace ClassModel.Diagnostics

theorem mem_push {log : Diagnostics} {added found : Diagnostic} :
    found ∈ (log.push added).entries ↔ found ∈ log.entries ∨ found = added := by
  rw [entries_push]
  split
  · rename_i there
    refine ⟨.inl, ?_⟩
    rintro (before | rfl)
    · exact before
    · exact there
  · simp

theorem mem_pushAll {log : Diagnostics} {added : List Diagnostic} {found : Diagnostic} :
    found ∈ (log.pushAll added).entries ↔ found ∈ log.entries ∨ found ∈ added := by
  induction added generalizing log with
  | nil => simp [pushAll]
  | cons first rest ih => rw [pushAll, List.foldl_cons, ← pushAll, ih, mem_push, List.mem_cons, or_assoc]

theorem entries_pushAll (log : Diagnostics) (added : List Diagnostic) :
    (log.pushAll added).entries = (log.entries ++ added).eraseDups := by
  induction added using List.reverseRecOn with
  | nil => rw [List.append_nil, eraseDups_eq_self log.nodup, pushAll, List.foldl_nil]
  | append_singleton added last ih =>
    have before : last ∈ (log.pushAll added).entries ↔ last ∈ log.entries ++ added := by
      rw [ih, List.mem_eraseDups]
    rw [pushAll, List.foldl_append, List.foldl_cons, List.foldl_nil, ← pushAll, entries_push,
      ← List.append_assoc, eraseDups_concat, ih]
    simp only [← ih, before]

theorem mem_absorb {notes : List Note} {found : Diagnostic} (noted : .diagnostic found ∈ notes)
    (log : Diagnostics) : found ∈ (log.absorb notes).entries :=
  mem_pushAll.mpr (.inr (List.mem_filterMap.mpr ⟨_, noted, rfl⟩))

/-! ## Logs in logs -/

theorem eq_of_entries {log other : Diagnostics} (same : log.entries = other.entries) :
    log = other := by
  obtain ⟨entries, once⟩ := log
  obtain ⟨others, othersOnce⟩ := other
  cases same
  rfl

theorem entries_extend (log other : Diagnostics) :
    (log.extend other).entries = (log.entries ++ other.entries).eraseDups :=
  entries_pushAll log other.entries

theorem extend_assoc (first second third : Diagnostics) :
    (first.extend second).extend third = first.extend (second.extend third) := by
  refine eq_of_entries ?_
  rw [entries_extend, entries_extend, entries_extend, entries_extend]
  calc ((first.entries ++ second.entries).eraseDups ++ third.entries).eraseDups
    _ = ((first.entries ++ second.entries) ++ third.entries).eraseDups :=
      eraseDups_append_congr (eraseDups_eq_self (nodup_eraseDups _)) rfl
    _ = (first.entries ++ (second.entries ++ third.entries)).eraseDups := by
      rw [List.append_assoc]
    _ = (first.entries ++ (second.entries ++ third.entries).eraseDups).eraseDups :=
      eraseDups_append_congr rfl (eraseDups_eq_self (nodup_eraseDups _)).symm

theorem extend_twice (log other : Diagnostics) :
    (log.extend other).extend other = log.extend other := by
  have once : other.extend other = other := by
    have nothingNew : other.entries.removeAll other.entries = [] :=
      List.filter_eq_nil_iff.mpr fun found there => by simp [there]
    refine eq_of_entries ?_
    rw [entries_extend, List.eraseDups_append, eraseDups_eq_self other.nodup, nothingNew]
    exact List.append_nil _
  rw [extend_assoc, once]

/-! ## Any number of logs -/

/-- A call among logs that are told apart by numbers. -/
inductive Call where
  | push (log : Nat) (found : Diagnostic)
  | extend (log other : Nat)

section

variable {Record Other : Type}

/-- One call on whatever is recorded of each log, with its effect on a record. -/
def Call.apply (push : Record → Diagnostic → Record) (extend : Record → Record → Record)
    (records : Nat → Record) : Call → Nat → Record
  | .push log found => Function.update records log (push (records log) found)
  | .extend log other => Function.update records log (extend (records log) (records other))

def run (push : Record → Diagnostic → Record) (extend : Record → Record → Record)
    (start : Record) (calls : List Call) : Nat → Record :=
  calls.foldl (Call.apply push extend) fun _ => start

variable {push : Record → Diagnostic → Record} {extend : Record → Record → Record}
  {otherPush : Other → Diagnostic → Other} {otherExtend : Other → Other → Other}
  (related : Record → Other → Prop)
  (pushed : ∀ record other found, related record other →
    related (push record found) (otherPush other found))
  (extended : ∀ record other more otherMore, related record other → related more otherMore →
    related (extend record more) (otherExtend other otherMore))

include pushed extended

theorem related_apply {records : Nat → Record} {others : Nat → Other}
    (before : ∀ log, related (records log) (others log)) (call : Call) (log : Nat) :
    related (call.apply push extend records log) (call.apply otherPush otherExtend others log) := by
  cases call with
  | push target found =>
    by_cases here : log = target
    · subst here
      simpa only [Call.apply, Function.update_self] using pushed _ _ found (before log)
    · simpa only [Call.apply, Function.update_of_ne here] using before log
  | extend target added =>
    by_cases here : log = target
    · subst here
      simpa only [Call.apply, Function.update_self] using
        extended _ _ _ _ (before log) (before added)
    · simpa only [Call.apply, Function.update_of_ne here] using before log

theorem related_run {start : Record} {otherStart : Other} (started : related start otherStart)
    (calls : List Call) (log : Nat) :
    related (run push extend start calls log) (run otherPush otherExtend otherStart calls log) := by
  induction calls using List.reverseRecOn generalizing log with
  | nil => exact started
  | append_singleton calls last ih =>
    simp only [run, List.foldl_append, List.foldl_cons, List.foldl_nil]
    exact related_apply related pushed extended ih last log

end

def logsAfter (calls : List Call) : Nat → Diagnostics := run push extend empty calls

/-- All entries that reached each log, with repeats: an extended log takes the whole stream of the
other. -/
def streamsAfter (calls : List Call) : Nat → List Diagnostic :=
  run (fun stream found => stream ++ [found]) (· ++ ·) [] calls

theorem entries_logsAfter (calls : List Call) (log : Nat) :
    (logsAfter calls log).entries = (streamsAfter calls log).eraseDups := by
  refine related_run (fun (log : Diagnostics) (stream : List Diagnostic) =>
    log.entries = stream.eraseDups) ?_ ?_ rfl calls log
  · intro log stream found soFar
    have single : log.push found = log.pushAll [found] := rfl
    rw [single, entries_pushAll]
    exact eraseDups_append_congr ((eraseDups_eq_self log.nodup).trans soFar) rfl
  · intro log stream other more soFar otherSoFar
    rw [entries_extend]
    exact eraseDups_append_congr ((eraseDups_eq_self log.nodup).trans soFar)
      ((eraseDups_eq_self other.nodup).trans otherSoFar)

/-! ## Repeats looked up in a set -/

deriving instance Hashable for Diagnostic

/-- Entries, and a set that is to have the same. -/
structure Indexed where
  entries : List Diagnostic := []
  seen : Std.HashSet Diagnostic := ∅

namespace Indexed

def push (log : Indexed) (found : Diagnostic) : Indexed :=
  if found ∈ log.seen then log else ⟨log.entries ++ [found], log.seen.insert found⟩

def extend (log other : Indexed) : Indexed := other.entries.foldl push log

/-- The set mirrors the entries, and they are those of the log. -/
structure Mirrors (indexed : Indexed) (log : Diagnostics) : Prop where
  entries : indexed.entries = log.entries
  seen : ∀ found, found ∈ indexed.seen ↔ found ∈ log.entries

theorem Mirrors.push {indexed : Indexed} {log : Diagnostics} (mirrors : Mirrors indexed log)
    (found : Diagnostic) : Mirrors (indexed.push found) (log.push found) := by
  by_cases there : found ∈ log.entries
  · have same : indexed.push found = indexed := if_pos ((mirrors.seen found).mpr there)
    rw [same]
    exact ⟨by rw [entries_push, if_pos there, mirrors.entries],
      fun other => by rw [entries_push, if_pos there, mirrors.seen]⟩
  · have fresh : found ∉ indexed.seen := fun early => there ((mirrors.seen found).mp early)
    have grown : indexed.push found = ⟨indexed.entries ++ [found], indexed.seen.insert found⟩ :=
      if_neg fresh
    rw [grown]
    refine ⟨by rw [entries_push, if_neg there, mirrors.entries], fun other => ?_⟩
    rw [mem_push, Std.HashSet.mem_insert, mirrors.seen, beq_iff_eq, eq_comm, or_comm]

theorem Mirrors.extend {indexed other : Indexed} {log otherLog : Diagnostics}
    (mirrors : Mirrors indexed log) (otherMirrors : Mirrors other otherLog) :
    Mirrors (indexed.extend other) (log.extend otherLog) := by
  rw [Indexed.extend, Diagnostics.extend, pushAll, otherMirrors.entries]
  generalize otherLog.entries = added
  induction added generalizing indexed log with
  | nil => exact mirrors
  | cons first rest ih => exact ih (mirrors.push first)

end Indexed

def indexedAfter (calls : List Call) : Nat → Indexed := run Indexed.push Indexed.extend {} calls

theorem mirrors_indexedAfter (calls : List Call) (log : Nat) :
    (indexedAfter calls log).Mirrors (logsAfter calls log) := by
  refine related_run Indexed.Mirrors ?_ ?_ ⟨rfl, fun found => by simp [empty]⟩ calls log
  · exact fun indexed log found mirrors => mirrors.push found
  · exact fun indexed log other otherLog mirrors otherMirrors => mirrors.extend otherMirrors

/-- However logs are put together from each other, with or without a set to look repeats up in, each
holds the entries that reached it in the order of their first occurrence. -/
theorem firstOccurrences :
    (∀ (calls : List Call) (log : Nat),
      (logsAfter calls log).entries = (streamsAfter calls log).eraseDups ∧
      (indexedAfter calls log).Mirrors (logsAfter calls log)) ∧
    (∀ first second third : Diagnostics,
      (first.extend second).extend third = first.extend (second.extend third)) ∧
    ∀ log other : Diagnostics, (log.extend other).extend other = log.extend other :=
  ⟨fun calls log => ⟨entries_logsAfter calls log, mirrors_indexedAfter calls log⟩,
    extend_assoc, extend_twice⟩

end ClassModel.Diagnostics
