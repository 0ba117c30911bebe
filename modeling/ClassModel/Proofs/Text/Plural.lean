import ClassModel.Text.Plural
import ClassModel.Proofs.Text.Ascii
import ClassModel.Proofs.Text.Lowercase

/-! Plurals in any case.

The ending of a plural is read off the lowercase word and put behind the word as it is written. On
ASCII words it does not matter whether a word is made lowercase first or made plural first, and
every rule makes a word longer.
-/

set_option autoImplicit false

namespace ClassModel.Text

theorem lowercaseChars_twice (cs : List Char) :
    lowercaseChars (lowercaseChars cs) = lowercaseChars cs :=
  lowercaseAfter_of_settled _ _ (settled_of_mem_lowercaseAfter _ _)

theorem dropped_lt_length_ending (reversed : List Char) :
    (pluralInflection reversed).dropped < (pluralInflection reversed).ending.length := by
  unfold pluralInflection
  split <;> (try split) <;> decide

-- The endings are lowercase ASCII letters.
theorem ending_lowercase (reversed : List Char) :
    IsAscii (pluralInflection reversed).ending ∧
      (pluralInflection reversed).ending.map Char.toLower =
        (pluralInflection reversed).ending := by
  unfold pluralInflection IsAscii
  split <;> (try split) <;> simp

theorem length_pluralChars {word : List Char} (filled : word ≠ []) :
    word.length < (pluralChars word).length := by
  have longer := dropped_lt_length_ending (lowercaseChars word).reverse
  simp only [pluralChars, List.isEmpty_iff, if_neg filled, List.length_append, List.length_take]
  omega

theorem isAscii_pluralChars {word : List Char} (ascii : IsAscii word) :
    IsAscii (pluralChars word) := by
  unfold pluralChars
  split
  · simp [IsAscii]
  · intro c member
    rcases List.mem_append.mp member with kept | added
    · exact ascii c (List.mem_of_mem_take kept)
    · exact (ending_lowercase _).1 c added

theorem lowercaseChars_pluralChars {word : List Char} (ascii : IsAscii word) :
    lowercaseChars (pluralChars word) = pluralChars (lowercaseChars word) := by
  rw [lowercaseChars_ascii _ (isAscii_pluralChars ascii)]
  by_cases empty : word = []
  · rw [empty]
    rfl
  have rest : lowercaseChars word ≠ [] := lowercaseAfter_ne_nil [] empty
  simp only [pluralChars, List.isEmpty_iff, if_neg empty, if_neg rest, lowercaseChars_twice,
    List.map_append, List.map_take, (ending_lowercase _).2]
  rw [lowercaseChars_ascii word ascii, List.length_map]

/-- A word and its plural are number variants in either order, however each is capitalised. -/
theorem areNumberVariants_pluralize {word plural : String}
    (ascii : ∀ c ∈ word.toList, c.toNat < 128) (filled : word ≠ "")
    (same : sameIgnoringAsciiCase plural (pluralize word) = true) :
    areNumberVariants word plural = true ∧ areNumberVariants plural word = true := by
  have letters : plural.toList.map Char.toLower = (pluralChars word.toList).map Char.toLower := by
    rwa [sameIgnoringAsciiCase_iff, pluralize, String.toList_ofList] at same
  have pluralAscii : IsAscii plural.toList := by
    rw [← isAscii_map_toLower, letters, isAscii_map_toLower]
    exact isAscii_pluralChars ascii
  have lowered : lowercaseChars plural.toList = pluralChars (lowercaseChars word.toList) := by
    rw [← lowercaseChars_pluralChars ascii, lowercaseChars_ascii _ pluralAscii, letters,
      lowercaseChars_ascii _ (isAscii_pluralChars ascii)]
  have rest : lowercaseChars word.toList ≠ [] :=
    lowercaseAfter_ne_nil [] (by simpa using filled)
  have longer := length_pluralChars rest
  have different : lowercaseChars word.toList ≠ pluralChars (lowercaseChars word.toList) := by
    intro alike
    rw [← alike] at longer
    exact Nat.lt_irrefl _ longer
  have pluralRest : pluralChars (lowercaseChars word.toList) ≠ [] :=
    List.ne_nil_of_length_pos (Nat.zero_lt_of_lt longer)
  rw [areNumberVariants_comm plural word, and_self]
  simp [areNumberVariants, isPluralOf, lowered, different, rest, pluralRest]

theorem areNumberVariants_countries :
    areNumberVariants "Country" "COUNTRIES" = true ∧
      areNumberVariants "COUNTRIES" "Country" = true :=
  areNumberVariants_pluralize (by simp) (by decide) (by decide +kernel)

end ClassModel.Text
