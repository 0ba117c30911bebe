import ClassModel.Text.Lowercase
import ClassModel.Proofs.Text.Blanks

/-! Words in lowercase and without blanks around them.

Lowercasing never yields a character that it would change again, and it turns no visible character
into a blank. So a text that has been trimmed and lowercased once stays as it is when the two are
applied again.
-/

set_option autoImplicit false

namespace ClassModel.Text

/-! ## Characters that lowercasing keeps -/

/-- Lowercasing keeps the character wherever it stands. -/
def Settled (c : Char) : Prop := lowercaseChar c = [c] ∧ c ≠ capitalSigma

instance (c : Char) : Decidable (Settled c) := inferInstanceAs (Decidable (_ ∧ _))

theorem lowercaseAfter_of_settled (before cs : List Char) (settled : ∀ c ∈ cs, Settled c) :
    lowercaseAfter before cs = cs := by
  induction cs generalizing before with
  | nil => rfl
  | cons c rest ih =>
    obtain ⟨same, plain⟩ := settled c List.mem_cons_self
    rw [lowercaseAfter, if_neg plain, same, ih _ (fun d member => settled d (.tail _ member))]
    rfl

/-! ## The table maps to characters that it keeps -/

namespace CaseRun

/-- The code point that one of the run is mapped to. -/
def image (run : CaseRun) (code : Nat) : Nat := (Int.ofNat code + run.distance).toNat

/-- No code point of the run is mapped into the range. -/
def avoids (run : CaseRun) (range : Nat × Nat) : Bool :=
  Nat.blt (run.image run.last) range.1 || Nat.blt range.2 (run.image run.first)

/-- No code point of the run is mapped to one that the other run covers: the images lie outside the
other run, or they fall between the code points that it steps over. -/
def misses (run other : CaseRun) : Bool :=
  run.avoids (other.first, other.last) ||
    (run.stride == 2 || run.first == run.last) && other.stride == 2 &&
      (run.image run.first + other.first) % 2 == 1

variable {run other : CaseRun} {code : Nat}

theorem covers_iff :
    run.covers code = true ↔
      run.first ≤ code ∧ code ≤ run.last ∧ (code - run.first) % run.stride = 0 := by
  simp [covers, and_assoc]

theorem image_between (covered : run.covers code = true) :
    run.image run.first ≤ run.image code ∧ run.image code ≤ run.image run.last := by
  obtain ⟨above, below, -⟩ := covers_iff.1 covered
  simp only [image, Int.ofNat_eq_natCast]
  omega

theorem image_outside {range : Nat × Nat} (covered : run.covers code = true)
    (avoided : run.avoids range = true) :
    run.image code < range.1 ∨ range.2 < run.image code := by
  have between := image_between covered
  simp only [avoids, Bool.or_eq_true, Nat.blt_eq] at avoided
  omega

theorem not_covers_image (covered : run.covers code = true) (missed : run.misses other = true)
    (positive : 0 < run.image run.first) : other.covers (run.image code) = false := by
  rw [← Bool.not_eq_true, covers_iff]
  rintro ⟨above, below, onStep⟩
  simp only [misses, Bool.or_eq_true, Bool.and_eq_true, beq_iff_eq] at missed
  rcases missed with outside | ⟨⟨steps, otherSteps⟩, odd⟩
  · have := image_outside covered outside
    omega
  · obtain ⟨after, before, ownStep⟩ := covers_iff.1 covered
    rw [otherSteps] at onStep
    simp only [image, Int.ofNat_eq_natCast] at positive odd above onStep
    rcases steps with two | single
    · rw [two] at ownStep
      omega
    · omega

end CaseRun

/-- The code points that lowercasing changes or that are blank, apart from those of the table, and
the surrogates. -/
def unsettledRanges : List (Nat × Nat) :=
  [(0, 0x5A), (0x85, 0xA0), (0x130, 0x130), (0x1680, 0x1680), (0x2000, 0x205F), (0x3000, 0x3000),
    (0xD800, 0xDFFF)]

/-- The images of a run are code points that lowercasing keeps. -/
def CaseRun.settles (run : CaseRun) : Bool :=
  run.image run.last < 0x110000 && unsettledRanges.all run.avoids && lowercaseRuns.all run.misses

theorem lowercaseRuns_settle : ∀ run ∈ lowercaseRuns, run.settles = true := by
  decide +kernel

theorem isBlank_eq_false {c : Char}
    (apart : ∀ range ∈ unsettledRanges, c.toNat < range.1 ∨ range.2 < c.toNat) :
    isBlank c = false := by
  simp only [unsettledRanges, List.forall_mem_cons, List.not_mem_nil] at apart
  rw [← Bool.not_eq_true]
  simp only [isBlank, Bool.or_eq_true, Bool.and_eq_true, decide_eq_true_eq, beq_iff_eq]
  omega

theorem settled_ascii : ∀ code < 128, 0x5A < code → Settled (Char.ofNat code) := by
  decide +kernel

/-- What the table maps a character to is kept, and it is visible. -/
theorem CaseRun.settled_image {run : CaseRun} {code : Nat} (listed : run ∈ lowercaseRuns)
    (covered : run.covers code = true) :
    Settled (Char.ofNat (run.image code)) ∧ isBlank (Char.ofNat (run.image code)) = false := by
  have settles := lowercaseRuns_settle run listed
  simp only [CaseRun.settles, Bool.and_eq_true, decide_eq_true_eq, List.all_eq_true] at settles
  obtain ⟨⟨small, avoided⟩, missed⟩ := settles
  have apart : ∀ range ∈ unsettledRanges,
      run.image code < range.1 ∨ range.2 < run.image code :=
    fun range member => image_outside covered (avoided range member)
  obtain ⟨low, -, dotted, -, -, -, surrogate, -⟩ := by
    simpa only [unsettledRanges, List.forall_mem_cons] using apart
  have lowest : 0x5A < run.image run.first := by
    simpa [avoids] using avoided (0, 0x5A) (by decide)
  have between := image_between covered
  have valid : (run.image code).isValidChar := by
    simp only [Nat.isValidChar]
    omega
  have code_image : (Char.ofNat (run.image code)).toNat = run.image code := by
    rw [Char.ofNat, dif_pos valid]
    rfl
  refine ⟨?_, isBlank_eq_false (by rwa [code_image])⟩
  by_cases ascii : run.image code < 128
  · exact settled_ascii _ ascii (by omega)
  have uncovered : lowercaseRuns.find? (·.covers (run.image code)) = none := by
    rw [List.find?_eq_none]
    intro other member
    simp [not_covers_image covered (missed other member) (by omega)]
  have undotted : Char.ofNat (run.image code) ≠ 'İ' := by
    intro same
    rw [same] at code_image
    have : 'İ'.toNat = 0x130 := rfl
    omega
  have unchanged : lowercaseChar (Char.ofNat (run.image code)) = [Char.ofNat (run.image code)] := by
    rw [lowercaseChar, code_image, if_neg ascii, if_neg undotted, uncovered]
  refine ⟨unchanged, fun same => ?_⟩
  rw [same] at unchanged
  exact absurd unchanged (by decide +kernel)

/-! ## One character -/

theorem kept_toLower : ∀ code < 128, Settled (Char.ofNat code).toLower ∧
    (isBlank (Char.ofNat code) = false → isBlank (Char.ofNat code).toLower = false) := by
  decide +kernel

/-- Every character of a lowercase form is kept by lowercasing, and it is visible when the one it
comes from is. -/
theorem kept_of_mem_lowercaseChar {c d : Char} (plain : c ≠ capitalSigma)
    (member : d ∈ lowercaseChar c) : Settled d ∧ (isBlank c = false → isBlank d = false) := by
  have own : Char.ofNat c.toNat = c := Char.ofNat_toNat c
  rw [lowercaseChar] at member
  split_ifs at member with ascii dotted
  · rw [List.mem_singleton.1 member]
    simpa only [own] using kept_toLower _ ascii
  · rw [dotted]
    simp only [List.mem_cons, List.not_mem_nil, or_false] at member
    rcases member with rfl | rfl <;> decide +kernel
  · split at member
    case _ run found =>
      have covered : run.covers c.toNat = true := by simpa using List.find?_some found
      have kept := CaseRun.settled_image (List.mem_of_find?_eq_some found) covered
      rw [List.mem_singleton.1 member]
      exact ⟨kept.1, fun _ => kept.2⟩
    case _ missing =>
      rw [List.mem_singleton.1 member]
      exact ⟨⟨by rw [lowercaseChar, if_neg ascii, if_neg dotted, missing], plain⟩, id⟩

theorem lowercaseChar_ne_nil (c : Char) : lowercaseChar c ≠ [] := by
  rw [lowercaseChar]
  split_ifs
  · simp
  · simp
  · split <;> simp

/-! ## A whole text -/

/-- What one character of a text contributes to its lowercase form. -/
theorem lowercaseAfter_cons (before : List Char) (c : Char) (rest : List Char) :
    ∃ form, lowercaseAfter before (c :: rest) = form ++ lowercaseAfter (c :: before) rest ∧
      form ≠ [] ∧ ∀ d ∈ form, Settled d ∧ (isBlank c = false → isBlank d = false) := by
  by_cases sigma : c = capitalSigma
  · refine ⟨_, by rw [lowercaseAfter, if_pos sigma], by simp, fun d member => ?_⟩
    rw [List.mem_singleton.1 member]
    -- Both small forms of sigma are kept and visible, whatever stands around them.
    split
    · exact ⟨by decide +kernel, fun _ => by decide⟩
    · exact ⟨by decide +kernel, fun _ => by decide⟩
  · exact ⟨_, by rw [lowercaseAfter, if_neg sigma], lowercaseChar_ne_nil c,
      fun d => kept_of_mem_lowercaseChar sigma⟩

theorem settled_of_mem_lowercaseAfter (before cs : List Char) :
    ∀ d ∈ lowercaseAfter before cs, Settled d := by
  induction cs generalizing before with
  | nil => simp [lowercaseAfter]
  | cons c rest ih =>
    obtain ⟨form, split, -, kept⟩ := lowercaseAfter_cons before c rest
    intro d member
    rw [split, List.mem_append] at member
    rcases member with own | later
    · exact (kept d own).1
    · exact ih _ d later

theorem lowercaseAfter_ne_nil (before : List Char) {cs : List Char} (filled : cs ≠ []) :
    lowercaseAfter before cs ≠ [] := by
  obtain ⟨c, rest, rfl⟩ := List.exists_cons_of_ne_nil filled
  obtain ⟨form, split, own, -⟩ := lowercaseAfter_cons before c rest
  simp [split, own]

theorem visible_of_getLast?_lowercaseAfter (before cs : List Char)
    (ends : ∀ c ∈ cs.getLast?, isBlank c = false) :
    ∀ d ∈ (lowercaseAfter before cs).getLast?, isBlank d = false := by
  induction cs generalizing before with
  | nil => simp [lowercaseAfter]
  | cons c rest ih =>
    obtain ⟨form, split, own, kept⟩ := lowercaseAfter_cons before c rest
    intro d last
    rw [split] at last
    cases rest with
    | nil =>
      rw [lowercaseAfter, List.append_nil] at last
      exact (kept d (List.mem_of_getLast? last)).2 (ends c rfl)
    | cons next more =>
      rw [List.getLast?_append, Option.or_of_isSome (by
        simpa using lowercaseAfter_ne_nil _ (by simp))] at last
      exact ih _ (by simpa using ends) d last

theorem Trimmed.lowercaseChars {cs : List Char} (trimmed : Trimmed cs) :
    Trimmed (lowercaseChars cs) where
  starts d first := by
    cases cs with
    | nil => simp [Text.lowercaseChars, lowercaseAfter] at first
    | cons c rest =>
      obtain ⟨form, split, own, kept⟩ := lowercaseAfter_cons [] c rest
      rw [Text.lowercaseChars, split, List.head?_append, Option.or_of_isSome (by simpa)] at first
      exact (kept d (List.mem_of_mem_head? first)).2 (trimmed.starts c rfl)
  ends := visible_of_getLast?_lowercaseAfter [] cs trimmed.ends

theorem lowercase_lowercase (text : String) : lowercase (lowercase text) = lowercase text := by
  rw [← String.toList_inj, toList_lowercase, toList_lowercase]
  exact lowercaseAfter_of_settled _ _ (settled_of_mem_lowercaseAfter _ _)

/-- Trimming and lowercasing a second time changes nothing. -/
theorem lowercase_trim_twice (text : String) :
    lowercase (trim (lowercase (trim text))) = lowercase (trim text) := by
  have trimmed : trim (lowercase (trim text)) = lowercase (trim text) := by
    rw [← String.toList_inj, toList_trim, toList_lowercase, toList_trim]
    exact (trimmed_trimChars text.toList).lowercaseChars.trimChars
  rw [trimmed, lowercase_lowercase]

end ClassModel.Text
