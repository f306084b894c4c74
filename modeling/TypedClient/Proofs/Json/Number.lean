import TypedClient.Json.Token
import TypedClient.Proofs.Number.Shortest
import TypedClient.Proofs.Text.Trim

namespace TypedClient.Json

def signed (negative : Bool) (text : List Char) : List Char :=
  if negative then '-' :: text else text

structure IsWhole (whole : List Char) : Prop where
  digits : ∀ c ∈ whole, c.isDigit = true
  given : whole ≠ []
  lead : whole.head? = some '0' → whole.length = 1

theorem isWhole_zero : IsWhole ['0'] := ⟨by simp, by simp, fun _ => rfl⟩

theorem takes_digits {digits tail : List Char} (all : ∀ c ∈ digits, c.isDigit = true)
    (stop : ∀ c ∈ tail.head?, c.isDigit = false) :
    (digits ++ tail).takeWhile Char.isDigit = digits ∧
      (digits ++ tail).dropWhile Char.isDigit = tail := by
  have behind : (digits ++ tail).dropWhile Char.isDigit = tail := by
    rw [List.dropWhile_append_of_pos all, Text.dropWhile_of_head stop]
  have whole := @List.takeWhile_append_dropWhile _ Char.isDigit (digits ++ tail)
  rw [behind] at whole
  exact ⟨List.append_cancel_right whole, behind⟩

def readBehind? (negative : Bool) (whole : List Char) : List Char → Option Scalar
  | [] =>
    if digitLimit < whole.length then none
    else some (.int (if negative then -(readDigits whole : Int) else readDigits whole))
  | '.' :: rest =>
    let fraction := rest.takeWhile Char.isDigit
    if fraction.isEmpty then none
    else
      (readExponent? (rest.dropWhile Char.isDigit)).map fun exponent =>
        .float (.ofDecimal negative (readDigits (whole ++ fraction)) (exponent - fraction.length))
  | rest =>
    (readExponent? rest).map fun exponent =>
      .float (.ofDecimal negative (readDigits whole) exponent)

def readMagnitude? (negative : Bool) (body : List Char) : Option Scalar :=
  let whole := body.takeWhile Char.isDigit
  if whole.isEmpty || (whole.head? == some '0' && whole.length != 1) then none
  else readBehind? negative whole (body.dropWhile Char.isDigit)

theorem readNumber?_eq (text : List Char) : ∃ negative body, text = signed negative body ∧
    (negative = false → body.head? ≠ some '-') ∧
      readNumber? text = readMagnitude? negative body := by
  unfold readNumber?
  split
  rename_i negative body shape
  refine ⟨negative, body, ?_⟩
  have same : text = signed negative body ∧ (negative = false → body.head? ≠ some '-') := by
    split at shape
    · obtain ⟨rfl, rfl⟩ := Prod.mk.inj shape
      exact ⟨rfl, fun plain => by cases plain⟩
    · rename_i plain
      obtain ⟨rfl, rfl⟩ := Prod.mk.inj shape
      refine ⟨rfl, fun _ minus => ?_⟩
      obtain ⟨rest, shape⟩ := List.head?_eq_some_iff.mp minus
      exact plain rest shape
  refine ⟨same.1, same.2, ?_⟩
  unfold readMagnitude?
  dsimp only
  split
  · rfl
  · generalize body.dropWhile Char.isDigit = tail
    generalize body.takeWhile Char.isDigit = whole
    match tail with
    | [] => simp [readBehind?]
    | c :: tail =>
      by_cases point : c = '.'
      · subst point
        simp [readBehind?]
      · simp [readBehind?, point]

theorem readNumber?_signed (negative : Bool) {body : List Char}
    (plain : ∀ c ∈ body.head?, c.isDigit = true) :
    readNumber? (signed negative body) = readMagnitude? negative body := by
  have digit : body.head? ≠ some '-' := fun minus => absurd (plain '-' minus) (by decide)
  obtain ⟨other, rest, same, unsigned, read⟩ := readNumber?_eq (signed negative body)
  rw [read]
  cases negative with
  | true =>
      cases other with
      | true => rw [(List.cons.inj same).2]
      | false => exact absurd (congrArg List.head? same.symm) (unsigned rfl)
  | false =>
      cases other with
      | true => exact absurd (congrArg List.head? same) digit
      | false => rw [show body = rest from same]

section Parts

variable {negative : Bool} {whole fraction tail : List Char}

theorem readMagnitude?_append (isWhole : IsWhole whole)
    (stop : ∀ c ∈ tail.head?, c.isDigit = false) :
    readMagnitude? negative (whole ++ tail) = readBehind? negative whole tail := by
  obtain ⟨digits, behind⟩ := takes_digits isWhole.digits stop
  have lead : ¬(whole.isEmpty || (whole.head? == some '0' && whole.length != 1)) = true := by
    simpa [isWhole.given] using isWhole.lead
  unfold readMagnitude?
  simp only [digits, behind]
  rw [if_neg lead]

theorem readMagnitude?_integer (isWhole : IsWhole whole) (short : whole.length ≤ digitLimit) :
    readMagnitude? negative whole =
      some (.int (if negative then -(readDigits whole : Int) else readDigits whole)) := by
  have read := @readMagnitude?_append negative whole [] isWhole (by simp)
  rw [List.append_nil] at read
  rw [read]
  exact if_neg (by omega)

theorem readMagnitude?_pointed (isWhole : IsWhole whole)
    (digits : ∀ c ∈ fraction, c.isDigit = true) (given : fraction ≠ [])
    (stop : ∀ c ∈ tail.head?, c.isDigit = false) :
    readMagnitude? negative (whole ++ '.' :: (fraction ++ tail)) =
      (readExponent? tail).map fun exponent =>
        .float (.ofDecimal negative (readDigits (whole ++ fraction))
          (exponent - fraction.length)) := by
  obtain ⟨read, behind⟩ := takes_digits digits stop
  rw [readMagnitude?_append isWhole (by simp), readBehind?]
  simp only [read, behind]
  exact if_neg (by simpa using given)

theorem readMagnitude?_exponent (isWhole : IsWhole whole) :
    readMagnitude? negative (whole ++ 'e' :: tail) =
      (readExponent? ('e' :: tail)).map fun exponent =>
        .float (.ofDecimal negative (readDigits whole) exponent) := by
  rw [readMagnitude?_append isWhole (by simp)]
  rfl

theorem readExponent?_shown (negative : Bool) {digits : List Char}
    (all : ∀ c ∈ digits, c.isDigit = true) (given : digits ≠ []) :
    readExponent? ('e' :: (if negative then '-' else '+') :: digits) =
      some (if negative then -(readDigits digits : Int) else readDigits digits) := by
  have every : digits.all Char.isDigit = true := List.all_eq_true.mpr all
  cases negative with
  | true => simp [readExponent?, splitSign, given, every]
  | false => simp [readExponent?, splitSign, given, every]

end Parts

section Layout

open Binary64 (layout)

variable {negative : Bool} {digits : List Char} {point : Int}

/-- Digits that stand in a text as a number: they do not begin with a zero. -/
structure IsNumeral (digits : List Char) : Prop where
  spelled : ∀ c ∈ digits, c.isDigit = true
  given : digits ≠ []
  lead : digits.head? ≠ some '0'

theorem IsNumeral.isWhole (numeral : IsNumeral digits) : IsWhole digits :=
  ⟨numeral.spelled, numeral.given, fun zero => absurd zero numeral.lead⟩

theorem isNumeral_toDigits {n : Nat} (given : 0 < n) : IsNumeral (Nat.toDigits 10 n) :=
  ⟨isDigit_toDigits n, Nat.toDigits_ne_nil, head?_toDigits given⟩

theorem isDigit_zeros (count : Nat) : ∀ c ∈ List.replicate count '0', c.isDigit = true := by
  intro c member
  rw [List.eq_of_mem_replicate member]
  rfl

def Reads (negative : Bool) (text : List Char) (value : ℚ) : Prop :=
  ∃ read place, readMagnitude? negative text = some (.float (.ofDecimal negative read place)) ∧
    (read : ℚ) * 10 ^ place = value

theorem reads_small (numeral : IsNumeral digits) (count : Nat) :
    Reads negative ('0' :: '.' :: (List.replicate count '0' ++ digits))
      (readDigits digits * 10 ^ (-(count : Int) - digits.length)) := by
  have read := @readMagnitude?_pointed negative ['0'] (List.replicate count '0' ++ digits) []
    isWhole_zero
    (fun c member => (List.mem_append.mp member).elim (isDigit_zeros count c) (numeral.spelled c))
    (fun empty => numeral.given (List.append_eq_nil_iff.mp empty).2) (by simp)
  rw [List.append_nil] at read
  refine ⟨_, _, read, ?_⟩
  rw [readDigits_append, readDigits_append, readDigits_zeros, List.length_append,
    List.length_replicate, show readDigits ['0'] = 0 by decide]
  push_cast
  ring_nf

theorem reads_large (numeral : IsNumeral digits) {count : Nat} (positive : 0 < count) :
    Reads negative (digits.take count ++ List.replicate (count - digits.length) '0' ++
        '.' :: if (digits.drop count).isEmpty then ['0'] else digits.drop count)
      (readDigits digits * 10 ^ ((count : Int) - digits.length)) := by
  have whole : IsWhole (digits.take count ++ List.replicate (count - digits.length) '0') := by
    refine (IsNumeral.isWhole ⟨?_, ?_, ?_⟩)
    · intro c member
      rw [List.mem_append] at member
      exact member.elim (fun own => numeral.spelled c (List.mem_of_mem_take own))
        (isDigit_zeros _ c)
    · simp [numeral.given, positive.ne']
    · have taken : digits.take count ≠ [] := by simp [numeral.given, positive.ne']
      rw [List.head?_append_of_ne_nil _ taken, List.head?_take, if_neg positive.ne']
      exact numeral.lead
  rcases Nat.lt_or_ge count digits.length with more | less
  · have given : digits.drop count ≠ [] := by simpa using more
    rw [if_neg (by simpa using given), Nat.sub_eq_zero_of_le more.le, List.replicate_zero,
      List.append_nil] at *
    have read := @readMagnitude?_pointed negative _ (digits.drop count) [] whole
      (fun c member => numeral.spelled c (List.mem_of_mem_drop member)) given (by simp)
    rw [List.append_nil, List.take_append_drop, List.length_drop] at read
    refine ⟨_, _, read, ?_⟩
    congr 2
    omega
  · rw [List.drop_of_length_le less, List.take_of_length_le less] at *
    have read := @readMagnitude?_pointed negative _ ['0'] [] whole (by simp) (by simp) (by simp)
    rw [List.append_nil] at read
    refine ⟨_, _, read, ?_⟩
    rw [readDigits_append, readDigits_append, readDigits_zeros, List.length_replicate,
      show readDigits ['0'] = 0 by decide]
    obtain ⟨more, rfl⟩ := Nat.exists_eq_add_of_le less
    have ten : (10 : ℚ) ≠ 0 := by norm_num
    rw [Nat.add_sub_cancel_left, show ((digits.length + more : Nat) : Int) - digits.length = more
      by omega, zpow_natCast]
    push_cast
    norm_num
    ring

theorem reads_exponent (numeral : IsNumeral digits) (down : Bool) {shown : List Char}
    (all : ∀ c ∈ shown, c.isDigit = true) (given : shown ≠ []) :
    Reads negative
      (digits.take 1 ++ (if (digits.drop 1).isEmpty then [] else '.' :: digits.drop 1) ++
        'e' :: (if down then '-' else '+') :: shown)
      (readDigits digits * 10 ^
        ((if down then -(readDigits shown : Int) else readDigits shown) + 1 -
        digits.length)) := by
  obtain ⟨first, rest, rfl⟩ := List.exists_cons_of_ne_nil numeral.given
  have whole : IsWhole [first] :=
    ⟨fun c member => numeral.spelled c (by simp_all), by simp, fun _ => rfl⟩
  have exponent := readExponent?_shown down all given
  rw [List.take_one, List.head?_cons, Option.toList_some, List.drop_one, List.tail_cons]
  cases rest with
  | nil =>
      have read := @readMagnitude?_exponent negative [first]
        ((if down then '-' else '+') :: shown) whole
      rw [exponent] at read
      refine ⟨_, _, read, ?_⟩
      simp
  | cons second others =>
      have read := @readMagnitude?_pointed negative [first] (second :: others)
        ('e' :: (if down then '-' else '+') :: shown) whole
        (fun c member => numeral.spelled c (List.mem_cons_of_mem _ member)) (by simp) (by simp)
      rw [exponent] at read
      refine ⟨_, _, read, ?_⟩
      rw [List.singleton_append]
      congr 2
      simp only [List.length_cons]
      omega

def exponentDigits (size : Nat) : List Char :=
  (if (toString size).length < 2 then ['0'] else []) ++ Nat.toDigits 10 size

theorem isDigit_exponentDigits (size : Nat) : ∀ c ∈ exponentDigits size, c.isDigit = true := by
  intro c member
  rcases List.mem_append.mp member with pad | own
  · split at pad <;> simp_all
  · exact isDigit_toDigits _ c own

theorem readDigits_exponentDigits (size : Nat) : readDigits (exponentDigits size) = size := by
  rw [exponentDigits, readDigits_append, readDigits_toDigits]
  split <;> simp [readDigits]

theorem exponentDigits_ne_nil (size : Nat) : exponentDigits size ≠ [] := by
  simp [exponentDigits, Nat.toDigits_ne_nil]

theorem toList_exponential (negative : Bool) (size : Nat) :
    digits.take 1 ++ (if (digits.drop 1).isEmpty then [] else '.' :: digits.drop 1) ++
      'e' :: (if negative then '-' else '+') :: exponentDigits size =
    (String.ofList (digits.take 1 ++
        if (digits.drop 1).isEmpty then [] else '.' :: digits.drop 1) ++
      (if negative then "e-" else "e+") ++ (if (toString size).length < 2 then "0" else "") ++
      toString size).toList := by
  simp only [exponentDigits, String.toList_append, String.toList_ofList, Nat.toString_eq_repr,
    Nat.toList_repr]
  split <;> split <;> split <;> simp

theorem reads_layout (numeral : IsNumeral digits) :
    Reads negative (layout digits point).toList
      (readDigits digits * 10 ^ (point - digits.length)) := by
  unfold layout
  split
  · rename_i positional
    split
    · rename_i small
      have read := @reads_small negative digits numeral (-point).toNat
      rw [show -((-point).toNat : Int) = point by omega] at read
      simpa using read
    · rename_i large
      have read := @reads_large negative digits numeral point.toNat (by omega)
      rw [show (point.toNat : Int) = point by omega] at read
      simpa using read
  · have read := @reads_exponent negative digits numeral (decide (point - 1 < 0)) _
      (isDigit_exponentDigits _) (exponentDigits_ne_nil (point - 1).natAbs)
    have power : (if decide (point - 1 < 0) = true then -((point - 1).natAbs : Int)
        else (point - 1).natAbs) + 1 = point := by
      simp only [decide_eq_true_eq]
      split <;> omega
    rw [readDigits_exponentDigits, power, toList_exponential] at read
    simpa only [decide_eq_true_eq] using read

theorem isAtomChar_of_isDigit {c : Char} (digit : c.isDigit = true) : isAtomChar c = true := by
  simp [isAtomChar, Char.isAlphanum, digit]

theorem isAtomChar_layout (numeral : IsNumeral digits) :
    (layout digits point).toList.all isAtomChar = true := by
  have atoms {text : List Char} (all : ∀ c ∈ text, c.isDigit = true) :
      text.all isAtomChar = true :=
    List.all_eq_true.mpr fun c member => isAtomChar_of_isDigit (all c member)
  have front (count : Nat) : (digits.take count).all isAtomChar = true :=
    atoms fun c member => numeral.spelled c (List.mem_of_mem_take member)
  have back (count : Nat) : (digits.drop count).all isAtomChar = true :=
    atoms fun c member => numeral.spelled c (List.mem_of_mem_drop member)
  have zeros (count : Nat) : (List.replicate count '0').all isAtomChar = true :=
    atoms (isDigit_zeros count)
  have marks : isAtomChar '0' = true ∧ isAtomChar '.' = true ∧ isAtomChar 'e' = true ∧
      isAtomChar '-' = true ∧ isAtomChar '+' = true := by decide
  have shown (n : Nat) : (toString n).toList.all isAtomChar = true := by
    rw [Nat.toString_eq_repr, Nat.toList_repr]
    exact atoms (isDigit_toDigits n)
  unfold layout
  split
  · split
    · simp only [String.toList_append, String.toList_ofList, List.all_append, zeros,
        atoms numeral.spelled]
      decide
    · simp only [String.toList_ofList, List.all_append, List.all_cons, front, zeros, marks]
      split <;> simp [back, marks]
  · simp only [String.toList_append, String.toList_ofList, List.all_append, front, shown]
    split <;> split <;> split <;>
      (simp only [List.all_cons, List.all_nil, back, marks, Bool.and_true, Bool.true_and]; decide)

theorem isDigit_head_layout (numeral : IsNumeral digits) :
    ∃ c ∈ (layout digits point).toList.head?, c.isDigit = true := by
  obtain ⟨first, rest, rfl⟩ := List.exists_cons_of_ne_nil numeral.given
  have start : first.isDigit = true := numeral.spelled first (by simp)
  unfold layout
  split
  · split
    · exact ⟨'0', by simp, rfl⟩
    · obtain ⟨count, same⟩ := Nat.exists_eq_add_of_lt (by omega : 0 < point.toNat)
      refine ⟨first, ?_, start⟩
      rw [String.toList_ofList, same, Nat.zero_add, List.take_succ_cons, List.cons_append]
      rfl
  · refine ⟨first, ?_, start⟩
    simp only [String.toList_append, String.toList_ofList, List.take_succ_cons, List.cons_append]
    rfl

end Layout

open Binary64

theorem isNumeral_dropZeros {n : Nat} (given : 0 < n) :
    ∃ kept count, ((Nat.toDigits 10 n).reverse.dropWhile (· == '0')).reverse = kept ∧
      IsNumeral kept ∧ (Nat.toDigits 10 n).length = kept.length + count ∧
      n = readDigits kept * 10 ^ count := by
  have numeral := isNumeral_toDigits given
  have whole : ((Nat.toDigits 10 n).reverse.dropWhile (· == '0')).reverse ++
      ((Nat.toDigits 10 n).reverse.takeWhile (· == '0')).reverse = Nat.toDigits 10 n := by
    rw [← List.reverse_append, List.takeWhile_append_dropWhile, List.reverse_reverse]
  have zeros : ((Nat.toDigits 10 n).reverse.takeWhile (· == '0')).reverse =
      List.replicate ((Nat.toDigits 10 n).reverse.takeWhile (· == '0')).length '0' := by
    apply List.eq_replicate_iff.mpr
    refine ⟨List.length_reverse, fun c member => ?_⟩
    have zero := List.mem_takeWhile_imp (List.mem_reverse.mp member)
    exact beq_iff_eq.mp zero
  rw [zeros] at whole
  generalize ((Nat.toDigits 10 n).reverse.takeWhile (· == '0')).length = count at whole
  generalize ((Nat.toDigits 10 n).reverse.dropWhile (· == '0')).reverse = kept at whole
  have filled : kept ≠ [] := by
    rintro rfl
    have value := congrArg readDigits whole
    rw [List.nil_append, readDigits_zeros, readDigits_toDigits] at value
    omega
  refine ⟨kept, count, rfl, ⟨fun c member => ?_, filled, fun zero => ?_⟩, ?_, ?_⟩
  · exact numeral.spelled c (by rw [← whole]; exact List.mem_append_left _ member)
  · exact numeral.lead (by rw [← whole, List.head?_append_of_ne_nil _ filled, zero])
  · rw [← whole, List.length_append, List.length_replicate]
  · have value := congrArg readDigits whole
    rw [readDigits_append, readDigits_zeros, readDigits_toDigits, List.length_replicate] at value
    exact value.symm

/-- What is read as a decimal in the rounding interval of a double is read as the double. -/
theorem Reads.double {negative : Bool} {mantissa : Nat} {exponent : Int} {text : List Char}
    {value : ℚ} (reads : Reads negative text value)
    (canonical : (finite negative mantissa exponent).Canonical) (solid : 0 < mantissa)
    (positive : 0 < value) (rounds : Rounds mantissa exponent value) :
    readMagnitude? negative text = some (.float (finite negative mantissa exponent)) := by
  obtain ⟨digits, place, read, rfl⟩ := reads
  have given : 0 < digits := Nat.pos_of_ne_zero (by
    rintro rfl
    simp at positive)
  rw [read, ofDecimal_of_rounds canonical solid given rounds]

/-- The part of a spelling that is behind the sign, with the value that it stands for. -/
theorem toText_finite {negative : Bool} {mantissa : Nat} {exponent : Int}
    (canonical : (finite negative mantissa exponent).Canonical) (infinity notANumber : String) :
    ∃ body, ((finite negative mantissa exponent).toText infinity notANumber).toList =
        signed negative body ∧
      (∃ c ∈ body.head?, c.isDigit = true) ∧ body.all isAtomChar = true ∧
      readMagnitude? negative body = some (.float (finite negative mantissa exponent)) := by
  have sign (text : String) : ((if negative then "-" else "") ++ text).toList =
      signed negative text.toList := by
    cases negative <;> simp [signed]
  unfold toText
  dsimp only
  rcases Nat.eq_zero_or_pos mantissa with rfl | solid
  · have least : exponent = -1074 := by
      obtain ⟨-, -, -, large | least⟩ := canonical
      · exact absurd large (by decide)
      · exact least
    subst least
    refine ⟨"0.0".toList, sign _, ⟨'0', rfl, rfl⟩, by decide, ?_⟩
    cases negative <;> decide
  · rw [if_neg (by simpa using solid.ne')]
    have rounded := @rounds_shortest mantissa exponent canonical.1 solid
    generalize shortest mantissa exponent = found at rounded
    obtain ⟨digits, place⟩ := found
    obtain ⟨rounds, given⟩ := rounded
    obtain ⟨kept, count, dropped, numeral, length, value⟩ := isNumeral_dropZeros given
    have reads := @reads_layout negative kept ((Nat.toDigits 10 digits).length + place) numeral
    have same : (readDigits kept : ℚ) * 10 ^ (((Nat.toDigits 10 digits).length : Int) + place -
        kept.length) = digits * 10 ^ place := by
      have ten : (10 : ℚ) ≠ 0 := by norm_num
      have cast : (digits : ℚ) = readDigits kept * 10 ^ count := by exact_mod_cast value
      rw [length, show ((kept.length + count : Nat) : Int) + place - kept.length = count + place
        by omega, zpow_add₀ ten, zpow_natCast, cast, mul_assoc]
    rw [same] at reads
    have positive : (0 : ℚ) < digits * 10 ^ place := by positivity
    dsimp only
    rw [dropped]
    exact ⟨_, sign _, isDigit_head_layout numeral, isAtomChar_layout numeral,
      reads.double canonical solid positive rounds⟩

theorem readAtom?_signed (negative : Bool) {body : List Char}
    (start : ∃ c ∈ body.head?, c.isDigit = true) :
    readAtom? (signed negative body) = readMagnitude? negative body := by
  obtain ⟨c, first, digit⟩ := start
  obtain ⟨rest, rfl⟩ := List.head?_eq_some_iff.mp first
  have plain : ∀ d ∈ (c :: rest).head?, d.isDigit = true := by simpa using digit
  rw [← readNumber?_signed negative plain]
  have apart (word : String) (letters : word.toList.head?.any Char.isDigit = false)
      (behind : word.toList.tail.head?.any Char.isDigit = false) :
      String.ofList (signed negative (c :: rest)) ≠ word := by
    rintro rfl
    cases negative with
    | true => simp [signed, digit] at behind
    | false => simp [signed, digit] at letters
  unfold readAtom?
  split <;> rename_i same <;> try exact absurd same (apart _ (by decide) (by decide))
  rfl

structure IsAtom (text : List Char) (value : Scalar) : Prop where
  given : text ≠ []
  spelled : text.all isAtomChar = true
  read : readAtom? text = some value

theorem isAtom_signed {negative : Bool} {body : List Char} {value : Scalar}
    (start : ∃ c ∈ body.head?, c.isDigit = true) (spelled : body.all isAtomChar = true)
    (read : readMagnitude? negative body = some value) : IsAtom (signed negative body) value where
  given := by
    obtain ⟨c, first, -⟩ := start
    cases negative with
    | true => exact List.cons_ne_nil _ _
    | false =>
        rintro rfl
        cases first
  spelled := by
    cases negative with
    | true => simpa [signed, isAtomChar] using spelled
    | false => exact spelled
  read := by rw [readAtom?_signed negative start, read]

theorem isAtom_float {x : Binary64} (canonical : x.Canonical) :
    IsAtom (x.toText "Infinity" "NaN").toList (.float x) := by
  match x with
  | .nan => exact ⟨by decide, by decide, rfl⟩
  | .infinite true => exact ⟨by decide, by decide, rfl⟩
  | .infinite false => exact ⟨by decide, by decide, rfl⟩
  | .finite negative mantissa exponent =>
    obtain ⟨body, text, start, spelled, read⟩ := toText_finite canonical "Infinity" "NaN"
    rw [text]
    exact isAtom_signed start spelled read

theorem isAtom_int {n : Int} (short : n.natAbs < 10 ^ digitLimit) :
    IsAtom (toString n).toList (.int n) := by
  have text : (toString n).toList = signed (decide (n < 0)) (Nat.toDigits 10 n.natAbs) := by
    rw [Int.toString_eq_repr, Int.repr_eq_if]
    split
    · rename_i high
      rw [Nat.toList_repr, signed, if_neg (by simpa using high),
        show n.toNat = n.natAbs by omega]
    · rename_i low
      have size : (-n).toNat = n.natAbs := by omega
      rw [String.toList_append, Nat.toList_repr, signed, if_pos (by simpa using low), size]
      rfl
  have whole : IsWhole (Nat.toDigits 10 n.natAbs) := by
    rcases Nat.eq_zero_or_pos n.natAbs with zero | positive
    · rw [zero]
      exact isWhole_zero
    · exact (isNumeral_toDigits positive).isWhole
  have length : (Nat.toDigits 10 n.natAbs).length ≤ digitLimit :=
    (Nat.length_toDigits_le_iff (by decide) (by decide)).mpr short
  have read := @readMagnitude?_integer (decide (n < 0)) _ whole length
  have value : (if decide (n < 0) = true then -(n.natAbs : Int) else n.natAbs) = n := by
    simp only [decide_eq_true_eq]
    split <;> omega
  rw [readDigits_toDigits, value] at read
  rw [text]
  apply isAtom_signed _ _ read
  · obtain ⟨c, rest, shape⟩ := List.exists_cons_of_ne_nil whole.given
    exact ⟨c, by rw [shape]; rfl, whole.digits c (by rw [shape]; exact List.mem_cons_self)⟩
  · exact List.all_eq_true.mpr fun c member => isAtomChar_of_isDigit (whole.digits c member)

end TypedClient.Json
