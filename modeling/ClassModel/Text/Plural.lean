import ClassModel.Text.Lowercase

/-! English singular and plural forms of identifier words. -/

set_option autoImplicit false

namespace ClassModel.Text

def isVowel (c : Char) : Bool := c ∈ ['a', 'e', 'i', 'o', 'u']

/-- The last character but one, when it is there and is no vowel. -/
def hasConsonantBeforeLast (reversed : List Char) : Bool :=
  match reversed with
  | _ :: before :: _ => !isVowel before
  | _ => false

/-- How a word is changed: so many characters are dropped at its end and a text is added. -/
structure Inflection where
  dropped : Nat
  ending : List Char

/-- The ending that makes a word plural, read off the lowercase word from its end. -/
def pluralInflection (reversed : List Char) : Inflection :=
  match reversed with
  | 's' :: _ => ⟨0, ['e', 's']⟩
  | 'h' :: 's' :: _ => ⟨0, ['e', 's']⟩
  | 'h' :: 'c' :: _ => ⟨0, ['e', 's']⟩
  | 'x' :: _ => ⟨0, ['e', 's']⟩
  | 'z' :: 't' :: _ => ⟨0, ['s']⟩
  | 'z' :: _ => ⟨0, ['z', 'e', 's']⟩
  | 'y' :: _ => if hasConsonantBeforeLast reversed then ⟨1, ['i', 'e', 's']⟩ else ⟨0, ['s']⟩
  | 'e' :: 'f' :: _ => ⟨2, ['v', 'e', 's']⟩
  | 'f' :: _ => ⟨1, ['v', 'e', 's']⟩
  | 'o' :: _ => if hasConsonantBeforeLast reversed then ⟨0, ['e', 's']⟩ else ⟨0, ['s']⟩
  | _ => ⟨0, ['s']⟩

/-- The plural of a word, in the case it is written in; the empty word stays empty. -/
def pluralChars (word : List Char) : List Char :=
  if word.isEmpty then []
  else
    let inflection := pluralInflection (lowercaseChars word).reverse
    word.take (word.length - inflection.dropped) ++ inflection.ending

def pluralize (word : String) : String := String.ofList (pluralChars word.toList)

/-- Whether the second of two lowercase words is a plural of the first, by the rules or by a
plain final s. -/
def isPluralOf (singular candidate : List Char) : Bool :=
  pluralChars singular == candidate || singular ++ ['s'] == candidate

/-- Whether one of two words is the plural of the other, whatever their case. Equal words and
empty words are not. -/
def areNumberVariants (first second : String) : Bool :=
  let first := lowercaseChars first.toList
  let second := lowercaseChars second.toList
  first != second && !first.isEmpty && !second.isEmpty &&
    (isPluralOf first second || isPluralOf second first)

theorem areNumberVariants_comm (first second : String) :
    areNumberVariants first second = areNumberVariants second first := by
  simp only [areNumberVariants]
  rw [bne_comm, Bool.or_comm (isPluralOf _ _)]
  cases (lowercaseChars first.toList).isEmpty <;>
    cases (lowercaseChars second.toList).isEmpty <;> simp

end ClassModel.Text
