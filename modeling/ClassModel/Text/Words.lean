import ClassModel.Text.Lowercase

/-! Words of an identifier.

A word is a run of capitals with the small letters after it, a run of small letters, or a run
of digits. Only ASCII letters and digits belong to words; every other character separates them.
-/

set_option autoImplicit false

namespace ClassModel.Text

def isCapital (c : Char) : Bool := 'A' ≤ c && c ≤ 'Z'

def isSmall (c : Char) : Bool := 'a' ≤ c && c ≤ 'z'

def isDigit (c : Char) : Bool := '0' ≤ c && c ≤ '9'

/-- The longest word at the front of a text; empty when no word starts there. -/
def leadingWord (cs : List Char) : List Char :=
  match cs.takeWhile isCapital with
  | [] =>
    match cs.takeWhile isSmall with
    | [] => cs.takeWhile isDigit
    | small => small
  | capitals => capitals ++ (cs.dropWhile isCapital).takeWhile isSmall

/-- The words in the order of the text, in the case they are written in. -/
def rawWords (cs : List Char) : List (List Char) :=
  match cs with
  | [] => []
  | c :: rest =>
    match leadingWord (c :: rest) with
    | [] => rawWords rest
    | d :: word => (d :: word) :: rawWords ((c :: rest).drop (word.length + 1))
termination_by cs.length
decreasing_by all_goals simp only [List.length_cons, List.length_drop]; omega

def words (name : String) : List String :=
  (rawWords name.toList).map fun word => lowercase (String.ofList word)

end ClassModel.Text
