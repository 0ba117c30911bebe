import ClassModel.Text.CaseTables

/-! Lowercase text.

Every character is replaced by its Unicode lowercase mapping. Two rules go beyond a table of
single characters: a capital I with a dot becomes two characters, and a capital sigma becomes
a final sigma when a cased letter stands before it in its word and none after it.
-/

set_option autoImplicit false

namespace ClassModel.Text

def capitalSigma : Char := 'Σ'

def lowercaseChar (c : Char) : List Char :=
  if c.toNat < 128 then [c.toLower]
  else if c = 'İ' then ['i', Char.ofNat 0x307]
  else match lowercaseRuns.find? (·.covers c.toNat) with
    | some run => [Char.ofNat (Int.ofNat c.toNat + run.distance).toNat]
    | none => [c]

/-- Whether the first character that case does not ignore is a cased one. -/
def startsCased (cs : List Char) : Bool :=
  ((cs.dropWhile isCaseIgnorable).head?.map isCased).getD false

/-- Lowercase a rest of a text; `before` holds what precedes it, nearest character first. -/
def lowercaseAfter (before : List Char) : List Char → List Char
  | [] => []
  | c :: rest =>
    (if c = capitalSigma then
      [if startsCased before && !startsCased rest then 'ς' else 'σ']
    else lowercaseChar c) ++ lowercaseAfter (c :: before) rest

def lowercaseChars (cs : List Char) : List Char := lowercaseAfter [] cs

def lowercase (text : String) : String := String.ofList (lowercaseChars text.toList)

@[simp] theorem toList_lowercase (text : String) :
    (lowercase text).toList = lowercaseChars text.toList := by
  simp [lowercase]

theorem lowercaseAfter_ascii (before cs : List Char) (ascii : ∀ c ∈ cs, c.toNat < 128) :
    lowercaseAfter before cs = cs.map Char.toLower := by
  induction cs generalizing before with
  | nil => rfl
  | cons c rest ih =>
    have small := ascii c (by simp)
    have plain : c ≠ capitalSigma := by rintro rfl; revert small; decide
    simp [lowercaseAfter, plain, lowercaseChar, small,
      ih (c :: before) (fun d member => ascii d (by simp [member]))]

/-- On ASCII text only the letters change, each by itself. -/
theorem lowercaseChars_ascii (cs : List Char) (ascii : ∀ c ∈ cs, c.toNat < 128) :
    lowercaseChars cs = cs.map Char.toLower :=
  lowercaseAfter_ascii [] cs ascii

/-- Equality of two texts up to the case of ASCII letters. -/
def sameIgnoringAsciiCase (first second : String) : Bool :=
  first.toList.map Char.toLower == second.toList.map Char.toLower

theorem sameIgnoringAsciiCase_iff (first second : String) :
    sameIgnoringAsciiCase first second = true ↔
      first.toList.map Char.toLower = second.toList.map Char.toLower := by
  rw [sameIgnoringAsciiCase, beq_iff_eq]

theorem sameIgnoringAsciiCase_comm (first second : String) :
    sameIgnoringAsciiCase first second = sameIgnoringAsciiCase second first := by
  simp only [sameIgnoringAsciiCase]
  exact BEq.comm

end ClassModel.Text
