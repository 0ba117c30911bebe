import ClassModel.Text.Blank
import Mathlib.Data.List.TakeWhile

/-! Texts without blanks around them. -/

set_option autoImplicit false

namespace ClassModel.Text

/-- No blank at either end. -/
structure Trimmed (cs : List Char) : Prop where
  starts : ∀ c ∈ cs.head?, isBlank c = false
  ends : ∀ c ∈ cs.getLast?, isBlank c = false

theorem dropLeadingBlanks_of_visible {cs : List Char}
    (starts : ∀ c ∈ cs.head?, isBlank c = false) : dropLeadingBlanks cs = cs := by
  cases cs with
  | nil => rfl
  | cons c rest => exact List.dropWhile_cons_of_neg (by simp [starts c rfl])

theorem visible_of_mem_head?_dropLeadingBlanks (cs : List Char) {c : Char}
    (first : c ∈ (dropLeadingBlanks cs).head?) : isBlank c = false := by
  have kept := List.head?_dropWhile_not isBlank cs
  rw [dropLeadingBlanks] at first
  rw [Option.mem_def.1 first] at kept
  simpa using kept

theorem Trimmed.trimChars {cs : List Char} (trimmed : Trimmed cs) : trimChars cs = cs := by
  have backwards : ∀ c ∈ cs.reverse.head?, isBlank c = false := by
    simpa only [List.head?_reverse] using trimmed.ends
  rw [Text.trimChars, dropLeadingBlanks_of_visible trimmed.starts,
    dropLeadingBlanks_of_visible backwards, List.reverse_reverse]

theorem trimmed_trimChars (cs : List Char) : Trimmed (trimChars cs) where
  starts c first := by
    -- What is left after trimming the end is a prefix of what is left after trimming the start.
    have kept : Text.trimChars cs <+: dropLeadingBlanks cs := by
      rw [Text.trimChars, ← List.reverse_suffix, List.reverse_reverse]
      exact List.dropWhile_suffix _
    refine visible_of_mem_head?_dropLeadingBlanks cs ?_
    obtain ⟨rest, joined⟩ := kept
    rw [← joined, List.head?_append, Option.mem_def.1 first]
    rfl
  ends c last := by
    rw [Text.trimChars, List.getLast?_reverse] at last
    exact visible_of_mem_head?_dropLeadingBlanks _ last

end ClassModel.Text
