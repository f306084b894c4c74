import TypedClient.Text.Blank
import TypedClient.Text.Case

namespace TypedClient.Text

section Ascii

variable {c : Char}

theorem isUpper_iff : c.isUpper = true ↔ 65 ≤ c.toNat ∧ c.toNat ≤ 90 := by
  change decide (c.val ≥ 'A'.val ∧ c.val ≤ 'Z'.val) = true ↔ _
  rw [decide_eq_true_iff, ge_iff_le, UInt32.le_iff_toNat_le, UInt32.le_iff_toNat_le]
  exact Iff.rfl

theorem isLower_iff : c.isLower = true ↔ 97 ≤ c.toNat ∧ c.toNat ≤ 122 := by
  change (decide (c.val ≥ 'a'.val) && decide (c.val ≤ 'z'.val)) = true ↔ _
  rw [Bool.and_eq_true, decide_eq_true_iff, decide_eq_true_iff, ge_iff_le,
    UInt32.le_iff_toNat_le, UInt32.le_iff_toNat_le]
  exact Iff.rfl

theorem isDigit_iff : c.isDigit = true ↔ 48 ≤ c.toNat ∧ c.toNat ≤ 57 :=
  Char.isDigit_iff_toNat

theorem isAlphanum_iff : c.isAlphanum = true ↔
    (65 ≤ c.toNat ∧ c.toNat ≤ 90 ∨ 97 ≤ c.toNat ∧ c.toNat ≤ 122) ∨
      48 ≤ c.toNat ∧ c.toNat ≤ 57 := by
  change ((c.isUpper || c.isLower) || c.isDigit) = true ↔ _
  rw [Bool.or_eq_true, Bool.or_eq_true, isUpper_iff, isLower_iff, isDigit_iff]

theorem isAlphanum_of_isUpper (upper : c.isUpper = true) : c.isAlphanum = true :=
  isAlphanum_iff.mpr (.inl (.inl (isUpper_iff.mp upper)))

theorem isAlphanum_of_isDigit (digit : c.isDigit = true) : c.isAlphanum = true :=
  isAlphanum_iff.mpr (.inr (isDigit_iff.mp digit))

theorem isLower_of_isUpper (upper : c.isUpper = true) : c.isLower = false := by
  have range := isUpper_iff.mp upper
  rw [Bool.eq_false_iff]
  intro lower
  have other := isLower_iff.mp lower
  omega

theorem isDigit_of_isUpper (upper : c.isUpper = true) : c.isDigit = false := by
  have range := isUpper_iff.mp upper
  rw [Bool.eq_false_iff]
  intro digit
  have other := isDigit_iff.mp digit
  omega

theorem ascii_of_isAlphanum (plain : c.isAlphanum = true) : c.toNat < 128 := by
  have ranges := isAlphanum_iff.mp plain
  omega

theorem isBlank_of_isAlphanum (plain : c.isAlphanum = true) : isBlank c = false := by
  have ranges := isAlphanum_iff.mp plain
  simp only [isBlank, Bool.or_eq_false_iff, Bool.and_eq_false_iff, decide_eq_false_iff_not,
    beq_eq_false_iff_ne]
  omega

end Ascii

def isCapitalCode (code : Nat) : Bool := 128 ≤ code || 65 ≤ code && code ≤ 90

def goesUp (run : Nat × Nat × Nat × Int) : Bool :=
  let image (code : Nat) : Nat := ((code : Int) + run.2.2.2).toNat
  run.2.1 < 128 ||
    (run.1 == run.2.1 && isCapitalCode (image run.1) && image run.1 < 0xD800) ||
    (128 ≤ (run.1 : Int) + run.2.2.2 &&
      (image run.2.1 < 0xD800 || (0xE000 ≤ image run.1 && image run.2.1 < 0x110000)))

theorem goesUp_upperRuns : upperRuns.all goesUp = true := by decide +kernel

theorem capital_upperExpansions : upperExpansions.all (fun expansion => !expansion.2.isEmpty &&
    expansion.2.all fun code => isCapitalCode code && code < 0xD800) = true := by decide +kernel

theorem listed_expansion {code : Nat} {codes : List Nat}
    (found : upperExpansions.lookup code = some codes) :
    codes ≠ [] ∧ ∀ code ∈ codes, isCapitalCode code = true ∧ code < 0xD800 := by
  obtain ⟨before, after, shape, -⟩ := List.lookup_eq_some_iff.mp found
  have listed := List.all_eq_true.mp capital_upperExpansions (code, codes) (by simp [shape])
  simpa using listed

theorem toNat_ofNat {code : Nat} (valid : code < 0xD800 ∨ 0xE000 ≤ code ∧ code < 0x110000) :
    (Char.ofNat code).toNat = code := by
  have valid' : code.isValidChar := by
    unfold Nat.isValidChar
    omega
  rw [Char.ofNat, dif_pos valid']
  rfl

variable {c d : Char}

theorem capital_of_goesUp {run : Nat × Nat × Nat × Int} (up : goesUp run = true)
    (beyond : 128 ≤ c.toNat) (inside : run.1 ≤ c.toNat ∧ c.toNat ≤ run.2.1) :
    isCapitalCode (Char.ofNat (c.toNat + run.2.2.2).toNat).toNat = true := by
  simp only [goesUp, Bool.or_eq_true, Bool.and_eq_true, decide_eq_true_eq, beq_iff_eq] at up
  obtain (low | ⟨⟨single, capital⟩, valid⟩) | ⟨above, valid⟩ := up
  · omega
  · have same : c.toNat = run.1 := by omega
    rw [same, toNat_ofNat (.inl valid)]
    exact capital
  · rw [toNat_ofNat (by omega)]
    simp only [isCapitalCode, Bool.or_eq_true, decide_eq_true_eq]
    omega

/-- A character beyond ASCII goes to characters beyond ASCII and capital letters. -/
theorem capital_upperForm (beyond : 128 ≤ c.toNat) (member : d ∈ upperForm c) :
    isCapitalCode d.toNat = true := by
  rw [upperForm, if_neg (by omega), caseForm] at member
  split at member
  · rename_i codes found
    obtain ⟨code, inside, rfl⟩ := List.mem_map.mp member
    obtain ⟨capital, valid⟩ := (listed_expansion found).2 code inside
    rw [toNat_ofNat (.inl valid)]
    exact capital
  · split at member
    · rename_i run found
      rw [List.mem_singleton.mp member]
      have within := List.find?_some found
      simp only [inRun, Bool.and_eq_true, decide_eq_true_eq] at within
      exact capital_of_goesUp
        (List.all_eq_true.mp goesUp_upperRuns _ (List.mem_of_find?_eq_some found))
        beyond within.1
    · rw [List.mem_singleton.mp member]
      simp [isCapitalCode, beyond]

theorem upperForm_ne_nil (c : Char) : upperForm c ≠ [] := by
  unfold upperForm caseForm
  split
  · exact List.cons_ne_nil _ _
  · split
    · rename_i codes found
      simpa using (listed_expansion found).1
    · split <;> exact List.cons_ne_nil _ _

theorem toUpper_eq (c : Char) : c.toUpper.isUpper = true ∨ c.toUpper = c := by
  unfold Char.toUpper
  split
  · rename_i range
    have low : 97 ≤ c.val.toNat := UInt32.le_iff_toNat_le.mp range.1
    have high : c.val.toNat ≤ 122 := UInt32.le_iff_toNat_le.mp range.2
    left
    rw [isUpper_iff]
    change 65 ≤ (c.val + ('A'.val - 'a'.val)).toNat ∧ (c.val + ('A'.val - 'a'.val)).toNat ≤ 90
    have gap : ('A'.val - 'a'.val).toNat = 2 ^ 32 - 32 := by decide
    rw [UInt32.toNat_add, gap]
    omega
  · exact .inr rfl

theorem ascii_upperForm (member : d ∈ upperForm c) (ascii : d.toNat < 128) :
    d.isUpper = true ∨ d = c := by
  by_cases low : c.toNat < 128
  · rw [upperForm, if_pos low, List.mem_singleton] at member
    rw [member]
    exact toUpper_eq c
  · have capital := capital_upperForm (by omega) member
    simp only [isCapitalCode, Bool.or_eq_true, Bool.and_eq_true, decide_eq_true_eq] at capital
    exact .inl (isUpper_iff.mpr (by omega))

end TypedClient.Text
