import ClassModel.Text.Words
import ClassModel.Proofs.Text.Ascii
import ClassModel.Proofs.Text.Lowercase

/-! Where an identifier is cut into words.

Letters and digits of ASCII that stand side by side are cut apart between a letter and a digit, and
before a capital that follows a small letter. Everything else separates words, and no letter or digit
is lost.
-/

set_option autoImplicit false

namespace ClassModel.Text

/-! ## Kinds of characters -/

theorem isCapital_eq : isCapital = Char.isUpper := by
  funext c
  simp [isCapital, Char.isUpper, Char.le_def]

theorem isSmall_eq : isSmall = Char.isLower := by
  funext c
  simp [isSmall, Char.isLower, Char.le_def]

theorem isDigit_eq : isDigit = Char.isDigit := by
  funext c
  simp [isDigit, Char.isDigit, Char.le_def]

/-- Whether words are cut between two letters or digits that stand side by side. -/
def IsCut (c d : Char) : Prop :=
  c.isAlpha = true ∧ d.isDigit = true ∨ c.isDigit = true ∧ d.isAlpha = true ∨
    c.isLower = true ∧ d.isUpper = true

-- Two letters or digits go together in one of three ways only.
theorem not_isCut_iff {c d : Char} (first : c.isAlphanum = true) (second : d.isAlphanum = true) :
    ¬ IsCut c d ↔ c.isUpper = true ∧ d.isAlpha = true ∨ c.isLower = true ∧ d.isLower = true ∨
      c.isDigit = true ∧ d.isDigit = true := by
  rcases kinds_of_isAlphanum first with ⟨upper, lower, digit⟩ | ⟨upper, lower, digit⟩ |
    ⟨upper, lower, digit⟩
  all_goals
    rcases kinds_of_isAlphanum second with ⟨upperNext, lowerNext, digitNext⟩ |
      ⟨upperNext, lowerNext, digitNext⟩ | ⟨upperNext, lowerNext, digitNext⟩
    all_goals
      simp [IsCut, Char.isAlpha, upper, lower, digit, upperNext, lowerNext, digitNext]

/-! ## The word at the front -/

/-- A word that ends where the rest begins. -/
structure Leads (word rest : List Char) : Prop where
  uniform : (∀ c ∈ word, c.isAlpha = true) ∨ ∀ c ∈ word, c.isDigit = true
  uncut : word.Pairwise fun c d => ¬ IsCut c d
  ends : ∀ last ∈ word.getLast?, ∀ next ∈ rest.head?, next.isAlphanum = true → IsCut last next

theorem Leads.isAlphanum {word rest : List Char} (leads : Leads word rest) :
    ∀ c ∈ word, c.isAlphanum = true := by
  intro c member
  rw [isAlphanum_iff]
  exact leads.uniform.imp (fun letters => letters c member) (fun digits => digits c member)

theorem not_of_mem_head?_dropWhile {holds : Char → Bool} {cs : List Char} :
    ∀ next ∈ (cs.dropWhile holds).head?, ¬ holds next = true := by
  intro next isNext
  have stopped := List.head?_dropWhile_not holds cs
  rw [Option.mem_def.mp isNext] at stopped
  simpa using stopped

theorem leads_takeWhile_isDigit (cs : List Char) :
    Leads (cs.takeWhile Char.isDigit) (cs.dropWhile Char.isDigit) where
  uniform := .inr fun c member => List.mem_takeWhile_imp member
  uncut := by
    refine List.pairwise_of_forall_mem_list fun c first d second => ?_
    have digit : c.isDigit = true := List.mem_takeWhile_imp first
    have otherDigit : d.isDigit = true := List.mem_takeWhile_imp second
    exact (not_isCut_iff (isAlphanum_iff.mpr (.inr digit))
      (isAlphanum_iff.mpr (.inr otherDigit))).mpr (.inr (.inr ⟨digit, otherDigit⟩))
  ends last isLast next isNext alphanumeric := by
    have digit : last.isDigit = true := List.mem_takeWhile_imp (List.mem_of_getLast? isLast)
    have other : ¬ next.isDigit = true := not_of_mem_head?_dropWhile next isNext
    exact .inr (.inl ⟨digit, (isAlphanum_iff.mp alphanumeric).resolve_right other⟩)

/-- Capitals, then small letters: the shape of a word of letters. -/
theorem leads_letters (capitals : List Char) {small rest : List Char}
    (upper : ∀ c ∈ capitals, c.isUpper = true) (lower : ∀ c ∈ small, c.isLower = true)
    (stops : ∀ next ∈ rest.head?, ¬ next.isLower = true)
    (stopsCapitals : small = [] → ∀ next ∈ rest.head?, ¬ next.isUpper = true) :
    Leads (capitals ++ small) rest := by
  have letter : ∀ c ∈ capitals ++ small, c.isAlpha = true := by
    intro c member
    rw [isAlpha_iff]
    exact (List.mem_append.mp member).imp (upper c) (lower c)
  have alphanumeric : ∀ c ∈ capitals ++ small, c.isAlphanum = true :=
    fun c member => isAlphanum_iff.mpr (.inl (letter c member))
  refine ⟨.inl letter, ?_, ?_⟩
  · have uncut : ∀ c ∈ capitals ++ small, ∀ d ∈ capitals ++ small,
        (c.isUpper = true ∨ c.isLower = true ∧ d.isLower = true) → ¬ IsCut c d := by
      intro c first d second kinds
      rw [not_isCut_iff (alphanumeric c first) (alphanumeric d second)]
      exact kinds.imp (fun capital => ⟨capital, letter d second⟩) .inl
    rw [List.pairwise_append]
    refine ⟨?_, ?_, ?_⟩
    · refine List.pairwise_of_forall_mem_list fun c first d second => ?_
      exact uncut c (by simp [first]) d (by simp [second]) (.inl (upper c first))
    · refine List.pairwise_of_forall_mem_list fun c first d second => ?_
      exact uncut c (by simp [first]) d (by simp [second]) (.inr ⟨lower c first, lower d second⟩)
    · intro c first d second
      exact uncut c (by simp [first]) d (by simp [second]) (.inl (upper c first))
  · intro last isLast next isNext other
    have notLower := stops next isNext
    cases small with
    | nil =>
      -- After capitals alone comes neither a capital nor a small letter, so it is a digit.
      have notUpper := stopsCapitals rfl next isNext
      have digit : next.isDigit = true := by
        simpa [isAlphanum_iff, isAlpha_iff, notLower, notUpper] using other
      exact .inl ⟨letter last (List.mem_of_getLast? isLast), digit⟩
    | cons c more =>
      rw [List.getLast?_append, Option.or_of_isSome (by simp)] at isLast
      have lastLower := lower last (List.mem_of_getLast? isLast)
      rcases isAlphanum_iff.mp other with alpha | digit
      · have capital := (isAlpha_iff.mp alpha).resolve_right notLower
        exact .inr (.inr ⟨lastLower, capital⟩)
      · exact .inl ⟨isAlpha_iff.mpr (.inr lastLower), digit⟩

/-- What follows the word at the front of a text. -/
theorem leads_leadingWord (cs : List Char) :
    ∃ rest, cs = leadingWord cs ++ rest ∧ Leads (leadingWord cs) rest := by
  simp only [leadingWord, isCapital_eq, isSmall_eq, isDigit_eq]
  split
  case h_1 noCapitals =>
    split
    case h_1 noSmall =>
      exact ⟨_, List.takeWhile_append_dropWhile.symm, leads_takeWhile_isDigit cs⟩
    case h_2 =>
      refine ⟨_, List.takeWhile_append_dropWhile.symm, ?_⟩
      refine leads_letters [] (by simp) (fun c => List.mem_takeWhile_imp)
        not_of_mem_head?_dropWhile fun none => ?_
      contradiction
  case h_2 =>
    refine ⟨(cs.dropWhile Char.isUpper).dropWhile Char.isLower, by simp, ?_⟩
    refine leads_letters _ (fun c => List.mem_takeWhile_imp) (fun c => List.mem_takeWhile_imp)
      not_of_mem_head?_dropWhile fun none => ?_
    have whole : (cs.dropWhile Char.isUpper).dropWhile Char.isLower = cs.dropWhile Char.isUpper := by
      simpa [none] using List.takeWhile_append_dropWhile (p := Char.isLower)
        (l := cs.dropWhile Char.isUpper)
    rw [whole]
    exact not_of_mem_head?_dropWhile

theorem isAlphanum_of_leadingWord_eq_nil {c : Char} {rest : List Char}
    (none : leadingWord (c :: rest) = []) : c.isAlphanum = false := by
  simp only [leadingWord, isCapital_eq, isSmall_eq, isDigit_eq] at none
  split at none
  case h_1 noCapitals =>
    split at none
    case h_1 noSmall =>
      have notUpper : ¬ c.isUpper = true := fun capital => by simp [capital] at noCapitals
      have notLower : ¬ c.isLower = true := fun small => by simp [small] at noSmall
      have notDigit : ¬ c.isDigit = true := fun digit => by simp [digit] at none
      rw [← Bool.not_eq_true, isAlphanum_iff, isAlpha_iff]
      exact fun kinds => kinds.elim (·.elim notUpper notLower) notDigit
    case h_2 => contradiction
  case h_2 =>
    have noCapitals := (List.append_eq_nil_iff.mp none).1
    contradiction

/-! ## The words in their places -/

/-- A word and the place of its first character. -/
structure PlacedWord where
  place : Nat
  word : List Char

namespace PlacedWord

def stop (placed : PlacedWord) : Nat := placed.place + placed.word.length

def Covers (placed : PlacedWord) (place : Nat) : Prop :=
  placed.place ≤ place ∧ place < placed.stop

theorem covers_add_iff (place i : Nat) (word : List Char) :
    (mk place word).Covers (place + i) ↔ i < word.length := by
  simp [Covers, stop]

end PlacedWord

/-- The words of a text whose first character has the given place, where they stand. -/
def placedWords (place : Nat) (cs : List Char) : List PlacedWord :=
  match cs with
  | [] => []
  | c :: rest =>
    match leadingWord (c :: rest) with
    | [] => placedWords (place + 1) rest
    | d :: word =>
      ⟨place, d :: word⟩ :: placedWords (place + (word.length + 1))
        ((c :: rest).drop (word.length + 1))
termination_by cs.length
decreasing_by all_goals simp only [List.length_cons, List.length_drop]; omega

theorem map_placedWords (place : Nat) (cs : List Char) :
    (placedWords place cs).map (·.word) = rawWords cs := by
  fun_induction placedWords place cs with
  | case1 =>
    rw [rawWords]
    rfl
  | case2 place c rest none ih =>
    rw [rawWords, none]
    exact ih
  | case3 place c rest d word found ih =>
    rw [rawWords, found, List.map_cons, ih]

/-- Places of words that follow each other with nothing but separators between them. -/
inductive Splits : Nat → List Char → List PlacedWord → Prop
  | nil (place : Nat) : Splits place [] []
  | skip {place : Nat} {c : Char} {rest : List Char} {placed : List PlacedWord}
      (separates : c.isAlphanum = false) (later : Splits (place + 1) rest placed) :
      Splits place (c :: rest) placed
  | word {place : Nat} {word rest : List Char} {placed : List PlacedWord} (filled : word ≠ [])
      (leads : Leads word rest) (later : Splits (place + word.length) rest placed) :
      Splits place (word ++ rest) (⟨place, word⟩ :: placed)

theorem splits_placedWords (place : Nat) (cs : List Char) :
    Splits place cs (placedWords place cs) := by
  fun_induction placedWords place cs with
  | case1 place => exact .nil place
  | case2 place c rest none ih => exact .skip (isAlphanum_of_leadingWord_eq_nil none) ih
  | case3 place c rest d word found ih =>
    obtain ⟨after, split, leads⟩ := leads_leadingWord (c :: rest)
    rw [found] at split leads
    have dropped : (c :: rest).drop (word.length + 1) = after := by simp [split]
    rw [dropped] at ih ⊢
    rw [split]
    exact .word (List.cons_ne_nil d word) leads ih

namespace Splits

variable {place : Nat} {cs : List Char} {placed : List PlacedWord}

theorem flatten (splits : Splits place cs placed) :
    (placed.map (·.word)).flatten = cs.filter Char.isAlphanum := by
  induction splits with
  | nil => rfl
  | skip separates _ ih => rw [ih, List.filter_cons_of_neg (by simp [separates])]
  | word filled leads _ ih =>
    rw [List.map_cons, List.flatten_cons, ih, List.filter_append,
      List.filter_eq_self.mpr leads.isAlphanum]

theorem uniform (splits : Splits place cs placed) : ∀ one ∈ placed, one.word ≠ [] ∧
    ((∀ c ∈ one.word, c.isAlpha = true) ∨ ∀ c ∈ one.word, c.isDigit = true) := by
  induction splits with
  | nil => simp
  | skip _ _ ih => exact ih
  | word filled leads _ ih => exact List.forall_mem_cons.mpr ⟨⟨filled, leads.uniform⟩, ih⟩

theorem place_le (splits : Splits place cs placed) : ∀ one ∈ placed, place ≤ one.place := by
  induction splits with
  | nil => simp
  | skip _ _ ih => exact fun one member => Nat.le_of_succ_le (ih one member)
  | word _ _ _ ih =>
    refine List.forall_mem_cons.mpr ⟨Nat.le_refl _, fun one member => ?_⟩
    exact Nat.le_trans (Nat.le_add_right _ _) (ih one member)

theorem not_covers (splits : Splits place cs placed) {before : Nat} (sooner : before < place) :
    ∀ one ∈ placed, ¬ one.Covers before := fun one member covers =>
  absurd (Nat.le_trans (splits.place_le one member) covers.1) (Nat.not_le_of_lt sooner)

theorem inOrder (splits : Splits place cs placed) :
    placed.Pairwise fun earlier later => earlier.stop ≤ later.place := by
  induction splits with
  | nil => exact .nil
  | skip _ _ ih => exact ih
  | word _ _ later ih => exact List.pairwise_cons.mpr ⟨later.place_le, ih⟩

theorem stands (splits : Splits place cs placed) :
    ∀ one ∈ placed, one.word <+: cs.drop (one.place - place) := by
  induction splits with
  | nil => simp
  | @skip place c rest placed _ later ih =>
    intro one member
    have after := later.place_le one member
    have shift : one.place - place = one.place - (place + 1) + 1 := by omega
    rw [shift, List.drop_succ_cons]
    exact ih one member
  | @word place word rest placed _ _ later ih =>
    refine List.forall_mem_cons.mpr ⟨by simp, fun one member => ?_⟩
    have after := later.place_le one member
    have shift : one.place - place = word.length + (one.place - (place + word.length)) := by omega
    rw [shift, List.drop_length_add_append]
    exact ih one member

theorem covers_iff (splits : Splits place cs placed) {i : Nat} {c : Char}
    (there : cs[i]? = some c) :
    (∃ one ∈ placed, one.Covers (place + i)) ↔ c.isAlphanum = true := by
  induction splits generalizing i with
  | nil => simp at there
  | @skip place first rest placed separates later ih =>
    cases i with
    | zero =>
      obtain rfl : first = c := by simpa using there
      refine iff_of_false ?_ (by simp [separates])
      rintro ⟨one, member, covers⟩
      exact later.not_covers (Nat.lt_succ_self place) one member covers
    | succ i =>
      have shift : place + (i + 1) = place + 1 + i := by omega
      rw [shift]
      exact ih (by simpa using there)
  | @word place word rest placed filled leads later ih =>
    simp only [List.mem_cons, exists_eq_or_imp, PlacedWord.covers_add_iff]
    by_cases inside : i < word.length
    · rw [List.getElem?_append_left inside] at there
      exact iff_of_true (.inl inside) (leads.isAlphanum c (List.mem_of_getElem? there))
    · have shift : place + i = place + word.length + (i - word.length) := by omega
      rw [List.getElem?_append_right (Nat.le_of_not_lt inside)] at there
      rw [shift, or_iff_right inside]
      exact ih there

theorem together_iff (splits : Splits place cs placed) {i : Nat} {c d : Char}
    (first : cs[i]? = some c) (second : cs[i + 1]? = some d) (alphanumeric : c.isAlphanum = true)
    (otherAlphanumeric : d.isAlphanum = true) :
    (∃ one ∈ placed, one.Covers (place + i) ∧ one.Covers (place + (i + 1))) ↔ ¬ IsCut c d := by
  induction splits generalizing i with
  | nil => simp at first
  | @skip place front rest placed separates later ih =>
    cases i with
    | zero =>
      obtain rfl : front = c := by simpa using first
      simp [separates] at alphanumeric
    | succ i =>
      have shift : place + (i + 1) = place + 1 + i := by omega
      have shiftNext : place + (i + 1 + 1) = place + 1 + (i + 1) := by omega
      rw [shift, shiftNext]
      exact ih (by simpa using first) (by simpa using second)
  | @word place word rest placed filled leads later ih =>
    simp only [List.mem_cons, exists_eq_or_imp, PlacedWord.covers_add_iff]
    rcases Nat.lt_trichotomy (i + 1) word.length with inside | last | outside
    · rw [List.getElem?_append_left (by omega), List.getElem?_eq_some_iff] at first
      rw [List.getElem?_append_left inside, List.getElem?_eq_some_iff] at second
      obtain ⟨there, rfl⟩ := first
      obtain ⟨_, rfl⟩ := second
      refine iff_of_true (.inl ⟨there, inside⟩) ?_
      exact List.pairwise_iff_getElem.mp leads.uncut i (i + 1) _ _ (Nat.lt_succ_self i)
    · -- The first character ends the word and the second one begins the rest.
      rw [List.getElem?_append_left (by omega)] at first
      rw [List.getElem?_append_right (by omega), last, Nat.sub_self,
        ← List.head?_eq_getElem?] at second
      have isLast : c ∈ word.getLast? := by
        rw [List.getLast?_eq_getElem?, ← last]
        exact first
      refine iff_of_false ?_ (not_not.mpr (leads.ends c isLast d second otherAlphanumeric))
      rintro (⟨-, beyond⟩ | ⟨one, member, covers, -⟩)
      · omega
      · exact later.not_covers (by omega) one member covers
    · have shift : place + i = place + word.length + (i - word.length) := by omega
      have shiftNext : place + (i + 1) = place + word.length + (i - word.length + 1) := by omega
      have further : i + 1 - word.length = i - word.length + 1 := by omega
      rw [List.getElem?_append_right (by omega)] at first second
      rw [further] at second
      rw [shift, shiftNext, or_iff_right (by omega)]
      exact ih first second

end Splits

/-! ## Words written with underscores between them -/

theorem takeWhile_append_of_stop {holds : Char → Bool} {word rest : List Char}
    (all : ∀ c ∈ word, holds c = true) (stops : ∀ next ∈ rest.head?, holds next = false) :
    (word ++ rest).takeWhile holds = word := by
  have none : rest.takeWhile holds = [] := by
    cases rest with
    | nil => rfl
    | cons next more => exact List.takeWhile_cons_of_neg (by simp [stops next rfl])
  rw [List.takeWhile_append_of_pos all, none, List.append_nil]

theorem takeWhile_append_of_none {holds : Char → Bool} {word rest : List Char} (filled : word ≠ [])
    (none : ∀ c ∈ word, holds c = false) : (word ++ rest).takeWhile holds = [] := by
  obtain ⟨c, more, rfl⟩ := List.exists_cons_of_ne_nil filled
  exact List.takeWhile_cons_of_neg (by simp [none c List.mem_cons_self])

/-- Small letters only, or digits only. -/
structure IsPlain (word : List Char) : Prop where
  filled : word ≠ []
  uniform : (∀ c ∈ word, c.isLower = true) ∨ ∀ c ∈ word, c.isDigit = true

theorem leadingWord_plain {word rest : List Char} (plain : IsPlain word)
    (stops : ∀ next ∈ rest.head?, next.isAlphanum = false) : leadingWord (word ++ rest) = word := by
  have stopsAll : ∀ next ∈ rest.head?, next.isLower = false ∧ next.isDigit = false := by
    intro next isNext
    have separates := stops next isNext
    simp only [Char.isAlphanum, Char.isAlpha, Bool.or_eq_false_iff] at separates
    exact ⟨separates.1.2, separates.2⟩
  have noCapitals : (word ++ rest).takeWhile Char.isUpper = [] := by
    refine takeWhile_append_of_none plain.filled fun c member => ?_
    rw [← Bool.not_eq_true, isUpper_iff]
    rcases plain.uniform with small | digits
    · have := isLower_iff.mp (small c member)
      omega
    · have := isDigit_iff.mp (digits c member)
      omega
  obtain ⟨c, more, rfl⟩ := List.exists_cons_of_ne_nil plain.filled
  simp only [leadingWord, isCapital_eq, isSmall_eq, isDigit_eq, noCapitals]
  rcases plain.uniform with small | digits
  · rw [takeWhile_append_of_stop small fun next isNext => (stopsAll next isNext).1]
  · have noSmall : (c :: more ++ rest).takeWhile Char.isLower = [] := by
      refine takeWhile_append_of_none plain.filled fun d member => ?_
      have := isDigit_iff.mp (digits d member)
      rw [← Bool.not_eq_true, isLower_iff]
      omega
    rw [noSmall, takeWhile_append_of_stop digits fun next isNext => (stopsAll next isNext).2]

theorem rawWords_plain {word rest : List Char} (plain : IsPlain word)
    (stops : ∀ next ∈ rest.head?, next.isAlphanum = false) :
    rawWords (word ++ rest) = word :: rawWords rest := by
  have leading := leadingWord_plain plain stops
  obtain ⟨c, more, rfl⟩ := List.exists_cons_of_ne_nil plain.filled
  rw [List.cons_append] at leading ⊢
  rw [rawWords, leading]
  simp

theorem rawWords_nil : rawWords [] = [] := by
  rw [rawWords]

theorem rawWords_underscore (rest : List Char) : rawWords ('_' :: rest) = rawWords rest := by
  rw [rawWords]
  rfl

theorem rawWords_intercalate {pieces : List (List Char)} (plain : ∀ word ∈ pieces, IsPlain word) :
    rawWords (['_'].intercalate pieces) = pieces := by
  induction pieces with
  | nil => exact rawWords_nil
  | cons word rest ih =>
    obtain ⟨wordPlain, restPlain⟩ := List.forall_mem_cons.mp plain
    cases rest with
    | nil =>
      have alone : rawWords (word ++ []) = word :: rawWords [] :=
        rawWords_plain wordPlain (by simp)
      rw [List.append_nil, rawWords_nil] at alone
      rw [List.intercalate_singleton, alone]
    | cons next more =>
      rw [List.intercalate_cons_cons, List.append_assoc, rawWords_plain wordPlain (by simp),
        List.singleton_append, rawWords_underscore, ih restPlain]

/-! ## Lowercase words -/

theorem lowercaseChars_of_alphanumeric {word : List Char}
    (alphanumeric : ∀ c ∈ word, c.isAlphanum = true) :
    lowercaseChars word = word.map Char.toLower :=
  lowercaseChars_ascii word fun c member => lt_of_isAlphanum (alphanumeric c member)

section

variable (name : String)

theorem filter_isAlphanum_eq : (rawWords name.toList).flatten = name.toList.filter Char.isAlphanum := by
  rw [← map_placedWords 0]
  exact (splits_placedWords 0 name.toList).flatten

theorem rawWord_uniform : ∀ word ∈ rawWords name.toList, word ≠ [] ∧
    ((∀ c ∈ word, c.isAlpha = true) ∨ ∀ c ∈ word, c.isDigit = true) := by
  rw [← map_placedWords 0, List.forall_mem_map]
  exact (splits_placedWords 0 name.toList).uniform

theorem map_toList_words :
    (words name).map String.toList = (rawWords name.toList).map (·.map Char.toLower) := by
  rw [words, List.map_map]
  refine List.map_congr_left fun word member => ?_
  have alphanumeric : ∀ c ∈ word, c.isAlphanum = true := fun c inWord => isAlphanum_iff.mpr <|
    (rawWord_uniform name word member).2.imp (fun letters => letters c inWord)
      (fun digits => digits c inWord)
  simp [lowercaseChars_of_alphanumeric alphanumeric]

theorem isPlain_of_mem_words : ∀ word ∈ words name, IsPlain word.toList := by
  intro word member
  have listed : word.toList ∈ (words name).map String.toList := List.mem_map_of_mem member
  rw [map_toList_words] at listed
  obtain ⟨raw, inText, same⟩ := List.mem_map.mp listed
  obtain ⟨filled, uniform⟩ := rawWord_uniform name raw inText
  rw [← same]
  refine ⟨by simpa using filled, ?_⟩
  rcases uniform with letters | digits
  · refine .inl (List.forall_mem_map.mpr fun c inWord => ?_)
    rw [Char.isLower_toLower_eq_isAlpha]
    exact letters c inWord
  · refine .inr (List.forall_mem_map.mpr fun c inWord => ?_)
    rw [toLower_of_isDigit (digits c inWord)]
    exact digits c inWord

theorem join_words : String.join (words name) =
    String.ofList ((name.toList.filter Char.isAlphanum).map Char.toLower) := by
  rw [← String.toList_inj, String.toList_join, String.toList_ofList, List.flatMap_def,
    map_toList_words, ← filter_isAlphanum_eq, List.map_flatten]

theorem words_intercalate : words ("_".intercalate (words name)) = words name := by
  have plain : ∀ word ∈ (words name).map String.toList, IsPlain word :=
    List.forall_mem_map.mpr (isPlain_of_mem_words name)
  have underscore : "_".toList = ['_'] := rfl
  have settled : ∀ word ∈ words name, lowercase (String.ofList word.toList) = word := by
    intro word member
    obtain ⟨raw, -, rfl⟩ := List.mem_map.mp member
    rw [String.ofList_toList, lowercase_lowercase]
  rw [words, String.toList_intercalate, underscore, rawWords_intercalate plain, List.map_map]
  exact (List.map_congr_left settled).trans (List.map_id _)

end

/-! ## The text under its words -/

/-- Placed words that stand in a text one after the other, on all letters and digits and on nothing
else, and that are cut apart exactly where two neighbours do not belong together. -/
structure Tiles (cs : List Char) (placed : List PlacedWord) : Prop where
  stands : ∀ one ∈ placed, one.word <+: cs.drop one.place
  inOrder : placed.Pairwise fun earlier later => earlier.stop ≤ later.place
  covers_iff : ∀ place c, cs[place]? = some c →
    ((∃ one ∈ placed, one.Covers place) ↔ c.isAlphanum = true)
  apart_iff : ∀ place c d, cs[place]? = some c → cs[place + 1]? = some d →
    ∀ first ∈ placed, ∀ second ∈ placed, first.Covers place → second.Covers (place + 1) →
      (first ≠ second ↔ IsCut c d)

theorem eq_of_covers {placed : List PlacedWord}
    (inOrder : placed.Pairwise fun earlier later => earlier.stop ≤ later.place)
    {first second : PlacedWord} (firstIn : first ∈ placed) (secondIn : second ∈ placed)
    {place : Nat} (covers : first.Covers place) (otherCovers : second.Covers place) :
    first = second := by
  have agree : placed.Pairwise fun one other =>
      one.Covers place → other.Covers place → one = other :=
    inOrder.imp fun before early late =>
      absurd (Nat.lt_of_lt_of_le early.2 before) (Nat.not_lt_of_le late.1)
  have : Std.Symm fun one other : PlacedWord =>
      one.Covers place → other.Covers place → one = other :=
    ⟨fun _ _ same early late => (same late early).symm⟩
  have all := List.Pairwise.forall_of_forall (fun _ _ _ _ => rfl) agree
  exact all firstIn secondIn covers otherCovers

theorem tiles_placedWords (cs : List Char) : Tiles cs (placedWords 0 cs) := by
  have splits := splits_placedWords 0 cs
  have covered : ∀ place c, cs[place]? = some c →
      ((∃ one ∈ placedWords 0 cs, one.Covers place) ↔ c.isAlphanum = true) := by
    intro place c there
    simpa only [Nat.zero_add] using splits.covers_iff there
  refine ⟨by simpa using splits.stands, splits.inOrder, covered, ?_⟩
  intro place c d there next first firstIn second secondIn covers coversNext
  have alphanumeric := (covered place c there).mp ⟨first, firstIn, covers⟩
  have nextAlphanumeric := (covered (place + 1) d next).mp ⟨second, secondIn, coversNext⟩
  have together := splits.together_iff there next alphanumeric nextAlphanumeric
  simp only [Nat.zero_add] at together
  rw [ne_eq, not_iff_comm, ← together]
  constructor
  · rintro ⟨one, member, oneCovers, oneCoversNext⟩
    rw [eq_of_covers splits.inOrder firstIn member covers oneCovers,
      eq_of_covers splits.inOrder secondIn member coversNext oneCoversNext]
  · rintro rfl
    exact ⟨first, firstIn, covers, coversNext⟩

/-- The words of an identifier are its letters and digits in lowercase, cut between a letter and a
digit and before a capital that follows a small letter; written with underscores between them they
are the same words again. -/
theorem words_exact (name : String) :
    String.join (words name) =
        String.ofList ((name.toList.filter Char.isAlphanum).map Char.toLower) ∧
      (∀ word ∈ words name, word ≠ "" ∧
        ((∀ c ∈ word.toList, c.isLower = true) ∨ ∀ c ∈ word.toList, c.isDigit = true)) ∧
      (words name = (placedWords 0 name.toList).map fun one => lowercase (String.ofList one.word)) ∧
      Tiles name.toList (placedWords 0 name.toList) ∧
      words ("_".intercalate (words name)) = words name := by
  refine ⟨join_words name, ?_, ?_, tiles_placedWords _, words_intercalate name⟩
  · intro word member
    obtain ⟨filled, uniform⟩ := isPlain_of_mem_words name word member
    exact ⟨by simpa using filled, uniform⟩
  · rw [words, ← map_placedWords 0, List.map_map]
    rfl

-- Capitals stay together with the small letters after them.
example : words "URLPath_lineItem2" = ["urlpath", "line", "item", "2"] := by cbv

end ClassModel.Text
