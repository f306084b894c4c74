import TypedClient.Number.Decimal
import TypedClient.Number.Shortest
import TypedClient.Proofs.Number.Rounding

/-!
Decimal digits of numbers, and which double a decimal is read as. The shortest decimal of a double
rounds to it: all grids but the last are tried, and the last one, of seventeen digits, is so fine
that its nearest point always rounds to the double.
-/

namespace TypedClient

section Digits

theorem readDigits_eq (text : List Char) : readDigits text = Nat.ofDigitChars 10 text 0 := by
  rw [readDigits, Nat.ofDigitChars_eq_foldl]
  congr 1
  funext value c
  rw [Nat.mul_comm]
  rfl

theorem readDigits_append (front back : List Char) :
    readDigits (front ++ back) = readDigits front * 10 ^ back.length + readDigits back := by
  rw [readDigits_eq, readDigits_eq, readDigits_eq, Nat.ofDigitChars_append,
    Nat.ofDigitChars_eq_ofDigitChars_zero, Nat.mul_comm]

@[simp] theorem readDigits_zeros (count : Nat) : readDigits (List.replicate count '0') = 0 := by
  rw [readDigits_eq, Nat.ofDigitChars_replicate_zero, Nat.mul_zero]

@[simp] theorem readDigits_toDigits (n : Nat) : readDigits (Nat.toDigits 10 n) = n := by
  rw [readDigits_eq, Nat.ofDigitChars_ten_toDigits]

theorem isDigit_toDigits (n : Nat) : ∀ c ∈ Nat.toDigits 10 n, c.isDigit = true :=
  fun _ member => Nat.isDigit_of_mem_toDigits (by decide) (by decide) member

theorem head?_toDigits {n : Nat} (given : 0 < n) : (Nat.toDigits 10 n).head? ≠ some '0' := by
  induction n using Nat.strongRecOn with
  | ind n ih =>
      rcases Nat.lt_or_ge n 10 with small | large
      · have single : ∀ n < 10, 0 < n → [n.digitChar].head? ≠ some '0' := by decide
        rw [Nat.toDigits_of_lt_base small]
        exact single n small given
      · rw [Nat.toDigits_of_base_le (by decide) large,
          List.head?_append_of_ne_nil _ Nat.toDigits_ne_nil]
        exact ih (n / 10) (Nat.div_lt_self given (by decide)) (by omega)

/-- A number lies between the powers of ten that its digits count. -/
theorem toDigits_bounds {n : Nat} (given : 0 < n) :
    (10 : ℚ) ^ ((Nat.toDigits 10 n).length - 1 : Int) ≤ n ∧
      (n : ℚ) < 10 ^ ((Nat.toDigits 10 n).length : Int) := by
  have filled := @Nat.length_toDigits_pos 10 n
  constructor
  · obtain ⟨k, same⟩ := Nat.exists_eq_add_of_lt filled
    rw [same, show ((0 + k + 1 : Nat) - 1 : Int) = k by omega]
    rcases Nat.eq_zero_or_pos k with rfl | positive
    · have one : (1 : ℚ) ≤ n := by exact_mod_cast given
      simpa using one
    · have low : ¬ n < 10 ^ k := by
        rw [← Nat.length_toDigits_le_iff (by decide) positive]
        omega
      exact_mod_cast not_lt.mp low
  · have high :=
      (Nat.length_toDigits_le_iff (by decide) filled).mp (le_refl (Nat.toDigits 10 n).length)
    exact_mod_cast high

end Digits

namespace Binary64

theorem canonical_zero (negative : Bool) : (finite negative 0 (-1074)).Canonical :=
  ⟨by norm_num, le_refl _, by norm_num, .inr rfl⟩

theorem ofDecimal_cases (negative : Bool) (digits : Nat) (place : Int) :
    ofDecimal negative digits place = finite negative 0 (-1074) ∨
      ofDecimal negative digits place = infinite negative ∨
      ofDecimal negative digits place =
        ofQuotient negative (digits * power 10 place) (power 10 (-place)) := by
  unfold ofDecimal
  dsimp only
  split
  · exact .inl rfl
  · split
    · exact .inr (.inl rfl)
    · split
      · rw [power_of_nonpos 10 (by omega : -place ≤ 0)]
        exact .inr (.inr rfl)
      · rw [power_of_nonpos 10 (by omega : place ≤ 0), Nat.mul_one]
        exact .inr (.inr rfl)

theorem canonical_ofDecimal (negative : Bool) (digits : Nat) (place : Int) :
    (ofDecimal negative digits place).Canonical := by
  rcases ofDecimal_cases negative digits place with zero | huge | made
  · rw [zero]
    exact canonical_zero negative
  · rw [huge]
    trivial
  · rw [made]
    exact canonical_ofQuotient negative (power_pos (by decide) _)

theorem decimal_bounds : (2 : ℚ) ^ (1024 : Int) < 10 ^ (309 : Int) ∧
    (10 : ℚ) ^ (-330 : Int) < 2 ^ (-1075 : Int) := by
  have huge : 2 ^ 1024 < 10 ^ 309 := by decide +kernel
  have tiny : 2 ^ 1075 < 10 ^ 330 := by decide +kernel
  constructor
  · rw [zpow_ofNat, zpow_ofNat]
    exact_mod_cast huge
  · rw [zpow_neg, zpow_neg, zpow_ofNat, zpow_ofNat]
    exact inv_strictAnti₀ (by positivity) (by exact_mod_cast tiny)

/-- A double that is not zero rounds from quotients within these bounds. -/
theorem bounds_of_rounds {negative : Bool} {mantissa : Nat} {exponent : Int} {quotient : ℚ}
    (canonical : (finite negative mantissa exponent).Canonical) (solid : 0 < mantissa)
    (rounds : Rounds mantissa exponent quotient) :
    (10 : ℚ) ^ (-330 : Int) < quotient ∧ quotient < 10 ^ (309 : Int) := by
  obtain ⟨small, least, most, -⟩ := canonical
  obtain ⟨huge, tiny⟩ := decimal_bounds
  constructor
  · refine tiny.trans_le (le_trans ?_ rounds.low)
    have one : (1 : ℚ) ≤ mantissa := by exact_mod_cast solid
    have step : (2 : ℚ) ^ (-1074 : Int) ≤ 2 ^ exponent := zpow_le_zpow_right₀ one_le_two least
    have edge : (1 : ℚ) / 2 ≤ mantissa -
        (if mantissa = 2 ^ 52 ∧ -1074 < exponent then 1 / 4 else 1 / 2) := by
      split <;> linarith
    calc (2 : ℚ) ^ (-1075 : Int) = 1 / 2 * 2 ^ (-1074 : Int) := by
          rw [show (-1075 : Int) = -1074 - 1 by norm_num, zpow_sub_one₀ two_ne_zero]
          ring
      _ ≤ _ := mul_le_mul edge step (zpow_pos two_pos _).le (le_trans (by norm_num) edge)
  · refine lt_of_le_of_lt (le_trans rounds.high ?_) huge
    have bound : (mantissa : ℚ) + 1 ≤ 2 ^ (53 : Int) := by
      rw [zpow_ofNat]
      exact_mod_cast small
    have step : (2 : ℚ) ^ exponent ≤ 2 ^ (971 : Int) := zpow_le_zpow_right₀ one_le_two most
    calc ((mantissa : ℚ) + 1 / 2) * 2 ^ exponent
        ≤ 2 ^ (53 : Int) * 2 ^ (971 : Int) :=
          mul_le_mul (by linarith) step (zpow_pos two_pos _).le (zpow_pos two_pos _).le
      _ = 2 ^ (1024 : Int) := by rw [← zpow_add₀ two_ne_zero]; norm_num

theorem ofDecimal_of_rounds {negative : Bool} {mantissa digits : Nat} {exponent place : Int}
    (canonical : (finite negative mantissa exponent).Canonical) (solid : 0 < mantissa)
    (given : 0 < digits) (rounds : Rounds mantissa exponent (digits * 10 ^ place)) :
    ofDecimal negative digits place = finite negative mantissa exponent := by
  have ten : (1 : ℚ) < 10 := by norm_num
  have value : ((digits * power 10 place : Nat) : ℚ) / (power 10 (-place) : Nat) =
      digits * 10 ^ place := by
    have scale := power_div_power 10 place
    push_cast at scale ⊢
    rw [mul_div_assoc, scale]
  have made : ofQuotient negative (digits * power 10 place) (power 10 (-place)) =
      finite negative mantissa exponent := by
    apply ofQuotient_of_rounds canonical (Nat.mul_pos given (power_pos (by decide) _))
      (power_pos (by decide) _)
    rw [value]
    exact rounds
  obtain ⟨below, above⟩ := bounds_of_rounds canonical solid rounds
  obtain ⟨low, high⟩ := toDigits_bounds given
  have scale : (0 : ℚ) < 10 ^ place := zpow_pos (by norm_num) place
  generalize length : ((Nat.toDigits 10 digits).length : Int) = count at low high
  have upper : count + place ≤ 309 := by
    have order : (10 : ℚ) ^ (count - 1 + place) < 10 ^ (309 : Int) := by
      rw [zpow_add₀ (by norm_num)]
      exact lt_of_le_of_lt (mul_le_mul_of_nonneg_right low scale.le) above
    have exponents := (zpow_lt_zpow_iff_right₀ ten).mp order
    omega
  have lower : -330 < count + place := by
    have order : (10 : ℚ) ^ (-330 : Int) < 10 ^ (count + place) := by
      rw [zpow_add₀ (by norm_num)]
      exact below.trans (mul_lt_mul_of_pos_right high scale)
    exact (zpow_lt_zpow_iff_right₀ ten).mp order
  rw [← made]
  unfold ofDecimal
  simp only [length]
  rw [if_neg (by simp; omega), if_neg (by omega)]
  split
  · rw [power_of_nonpos 10 (by omega : -place ≤ 0)]
  · rw [power_of_nonpos 10 (by omega : place ≤ 0), Nat.mul_one]

end Binary64

end TypedClient

namespace TypedClient.Binary64

section Grid

variable {r : Rounding} {digits : Nat} {place : Int}

theorem le_point_iff (positive : 0 < r.denominator) (bound : Nat) :
    (bound * power 10 (-place) ≤ digits * power 10 place * r.denominator ↔
      (bound : ℚ) / r.denominator ≤ digits * 10 ^ place) ∧
    (digits * power 10 place * r.denominator ≤ bound * power 10 (-place) ↔
      (digits : ℚ) * 10 ^ place ≤ bound / r.denominator) := by
  have positive' : (0 : ℚ) < r.denominator := by exact_mod_cast positive
  have unit : (0 : ℚ) < power 10 (-place) := by exact_mod_cast power_pos (by decide) _
  have scale := power_div_power 10 place
  rw [div_eq_iff unit.ne'] at scale
  have left : ((bound * power 10 (-place) : Nat) : ℚ) =
      bound / r.denominator * (r.denominator * power 10 (-place)) := by
    push_cast
    field_simp
  have right : ((digits * power 10 place * r.denominator : Nat) : ℚ) =
      digits * 10 ^ place * (r.denominator * power 10 (-place)) := by
    push_cast at scale ⊢
    rw [scale]
    ring
  have whole := mul_pos positive' unit
  constructor
  · rw [← Nat.cast_le (α := ℚ), left, right, mul_le_mul_iff_left₀ whole]
  · rw [← Nat.cast_le (α := ℚ), left, right, mul_le_mul_iff_left₀ whole]

/-- The point that is tried first is at most half a step off, over the denominator of the grid. -/
theorem near_numerator (positive : 0 < r.denominator) :
    |((r.value * power 10 (-place) : Nat) : ℚ) -
      (r.neighbours place).headD 0 * (r.denominator * power 10 place : Nat)| ≤
        (r.denominator * power 10 place : Nat) / 2 := by
  have fine : 0 < r.denominator * power 10 place := Nat.mul_pos positive (power_pos (by decide) _)
  unfold Rounding.neighbours
  dsimp only
  generalize r.value * power 10 (-place) = numerator
  generalize r.denominator * power 10 place = denominator at *
  have whole : (denominator : ℚ) * (numerator / denominator : Nat) +
      (numerator % denominator : Nat) = numerator := by
    exact_mod_cast Nat.div_add_mod numerator denominator
  split
  · rename_i below
    have half : 2 * (numerator % denominator) ≤ denominator := by
      simp only [Bool.or_eq_true, decide_eq_true_eq, Bool.and_eq_true, beq_iff_eq] at below
      omega
    have half' : 2 * ((numerator % denominator : Nat) : ℚ) ≤ denominator := by exact_mod_cast half
    have zero : (0 : ℚ) ≤ (numerator % denominator : Nat) := Nat.cast_nonneg _
    rw [List.headD_cons, abs_le]
    constructor <;> linarith
  · rename_i above
    have half : denominator ≤ 2 * (numerator % denominator) := by
      simp only [Bool.or_eq_true, decide_eq_true_eq, Bool.and_eq_true, beq_iff_eq] at above
      omega
    have half' : (denominator : ℚ) ≤ 2 * (numerator % denominator : Nat) := by exact_mod_cast half
    have less : ((numerator % denominator : Nat) : ℚ) ≤ denominator := by
      exact_mod_cast (Nat.mod_lt numerator fine).le
    rw [List.headD_cons, abs_le]
    push_cast
    constructor <;> linarith

theorem nearest_neighbour (positive : 0 < r.denominator) :
    |(r.value : ℚ) / r.denominator - (r.neighbours place).headD 0 * 10 ^ place| ≤
      10 ^ place / 2 := by
  have step : (0 : ℚ) < 10 ^ place := zpow_pos (by norm_num) place
  have fine : (0 : ℚ) < (r.denominator * power 10 place : Nat) := by
    exact_mod_cast Nat.mul_pos positive (power_pos (by decide) _)
  have value : (r.value : ℚ) / r.denominator = ((r.value * power 10 (-place) : Nat) : ℚ) /
      (r.denominator * power 10 place : Nat) * 10 ^ place := by
    have positive' : (0 : ℚ) < r.denominator := by exact_mod_cast positive
    have high : (power 10 place : ℚ) ≠ 0 := by exact_mod_cast (power_pos (by decide) place).ne'
    have low : (power 10 (-place) : ℚ) ≠ 0 := by exact_mod_cast (power_pos (by decide) _).ne'
    have scale := power_div_power 10 place
    push_cast at scale ⊢
    rw [← scale]
    field_simp
  rw [value, ← sub_mul, abs_mul, abs_of_pos step, div_eq_mul_one_div ((10 : ℚ) ^ place), mul_comm]
  refine mul_le_mul_of_nonneg_left ?_ step.le
  rw [div_sub' fine.ne', abs_div, abs_of_pos fine, div_le_iff₀ fine, one_div_mul_eq_div,
    mul_comm (_ : ℚ) ((r.neighbours place).headD 0 : ℚ)]
  exact near_numerator positive

theorem search_spec (magnitude : Int) (count left : Nat) :
    r.holds (r.search magnitude count left).1 (r.search magnitude count left).2 = true ∨
      r.search magnitude count left = ((r.neighbours (magnitude - (count + left : Nat))).headD 0,
        magnitude - (count + left : Nat)) := by
  induction left generalizing count with
  | zero => exact .inr rfl
  | succ left ih =>
      rw [Rounding.search]
      split
      · rename_i digits found
        have holds := List.find?_some found
        exact .inl holds
      · have later := ih (count + 1)
        rw [Nat.add_right_comm] at later
        exact later

theorem magnitude_le (given : 0 < r.value) (positive : 0 < r.denominator) :
    (10 : ℚ) ^ (r.magnitude - 1) ≤ r.value / r.denominator := by
  have positive' : (0 : ℚ) < r.denominator := by exact_mod_cast positive
  have ten : (10 : ℚ) ≠ 0 := by norm_num
  have low := (toDigits_bounds given).1
  have high := (toDigits_bounds positive).2
  obtain ⟨count, same⟩ : ∃ count : Int, ((Nat.toDigits 10 r.value).length : Int) = count := ⟨_, rfl⟩
  obtain ⟨count', same'⟩ : ∃ count : Int, ((Nat.toDigits 10 r.denominator).length : Int) = count :=
    ⟨_, rfl⟩
  rw [same] at low
  rw [same'] at high
  unfold Rounding.magnitude
  simp only [same, same']
  split
  · rw [le_div_iff₀ positive']
    calc (10 : ℚ) ^ (count - count' - 1) * r.denominator
        ≤ 10 ^ (count - count' - 1) * 10 ^ count' := by gcongr
      _ = 10 ^ (count - 1) := by
          rw [← zpow_add₀ ten]
          ring_nf
      _ ≤ r.value := low
  · rename_i above
    have bound := (@le_point_iff r 1 (count - count') positive r.value).2.mp
      (by rw [one_mul, Nat.mul_comm]; omega)
    simpa using bound

end Grid

section Rounding

variable {mantissa : Nat} {exponent : Int}

theorem denominator_pos (mantissa : Nat) (exponent : Int) :
    0 < (rounding mantissa exponent).denominator :=
  Nat.mul_pos (by decide) (power_pos (by decide) _)

theorem quarter_eq (exponent : Int) (count : Nat) :
    ((count * power 2 exponent : Nat) : ℚ) / (4 * power 2 (-exponent) : Nat) =
      count / 4 * 2 ^ exponent := by
  have scale := power_div_power 2 exponent
  push_cast at scale ⊢
  rw [← scale]
  field_simp

theorem value_eq (mantissa : Nat) (exponent : Int) :
    ((rounding mantissa exponent).value : ℚ) / (rounding mantissa exponent).denominator =
      mantissa * 2 ^ exponent := by
  have value := quarter_eq exponent (4 * mantissa)
  rw [Nat.cast_mul 4 mantissa, Nat.cast_ofNat, mul_div_cancel_left₀ _ four_ne_zero] at value
  exact value

theorem high_eq (mantissa : Nat) (exponent : Int) :
    ((rounding mantissa exponent).high : ℚ) / (rounding mantissa exponent).denominator =
      (mantissa + 1 / 2) * 2 ^ exponent := by
  have high := quarter_eq exponent (4 * mantissa + 2)
  rw [show ((4 * mantissa + 2 : Nat) : ℚ) / 4 = mantissa + 1 / 2 by push_cast; ring] at high
  exact high

theorem low_eq (solid : 0 < mantissa) (exponent : Int) :
    ((rounding mantissa exponent).low : ℚ) / (rounding mantissa exponent).denominator =
      (mantissa - (if mantissa = 2 ^ 52 ∧ -1074 < exponent then 1 / 4 else 1 / 2)) *
        2 ^ exponent := by
  have narrow : (mantissa == power 2 52 && decide (-1074 < exponent)) = true ↔
      mantissa = 2 ^ 52 ∧ -1074 < exponent := by
    rw [Bool.and_eq_true, beq_iff_eq, decide_eq_true_eq]
    rfl
  have below (step : Nat) (less : step ≤ 2) : ((4 * mantissa - step : Nat) : ℚ) / 4 =
      mantissa - step / 4 := by
    rw [Nat.cast_sub (by omega)]
    push_cast
    ring
  unfold rounding
  simp only [narrow]
  rw [quarter_eq]
  split
  · rw [below 1 (by decide), Nat.cast_one]
  · rw [below 2 (by decide), Nat.cast_ofNat]
    norm_num

theorem holds_iff {r : Rounding} {digits : Nat} {place : Int} (positive : 0 < r.denominator) :
    r.holds digits place = true ↔
      if r.closed then (r.low : ℚ) / r.denominator ≤ digits * 10 ^ place ∧
        (digits : ℚ) * 10 ^ place ≤ r.high / r.denominator
      else (r.low : ℚ) / r.denominator < digits * 10 ^ place ∧
        (digits : ℚ) * 10 ^ place < r.high / r.denominator := by
  have sides := @le_point_iff r digits place positive
  unfold Rounding.holds
  dsimp only
  split
  · rw [Bool.and_eq_true, decide_eq_true_eq, decide_eq_true_eq, (sides _).1, (sides _).2]
  · rw [Bool.and_eq_true, decide_eq_true_eq, decide_eq_true_eq, ← not_le, ← not_le, (sides _).2,
      (sides _).1, not_le, not_le]

theorem rounds_of_holds {digits : Nat} {place : Int} (solid : 0 < mantissa)
    (held : (rounding mantissa exponent).holds digits place = true) :
    Rounds mantissa exponent (digits * 10 ^ place) ∧ 0 < digits := by
  rw [holds_iff (denominator_pos mantissa exponent), low_eq solid, high_eq] at held
  have scale : (0 : ℚ) < 2 ^ exponent := zpow_pos two_pos exponent
  have rounds : Rounds mantissa exponent (digits * 10 ^ place) := by
    split at held
    · rename_i closed
      refine ⟨held.1, held.2, fun odd => ?_⟩
      have even : mantissa % 2 = 0 := beq_iff_eq.mp closed
      omega
    · refine ⟨held.1.le, held.2.le, fun odd => ⟨?_, held.2⟩⟩
      have plain : ¬(mantissa = 2 ^ 52 ∧ -1074 < exponent) := by
        rintro ⟨rfl, -⟩
        exact absurd odd (by decide)
      rw [if_neg plain] at held
      exact held.1
  refine ⟨rounds, Nat.pos_of_ne_zero ?_⟩
  rintro rfl
  have one : (1 : ℚ) ≤ mantissa := by exact_mod_cast solid
  have low := rounds.low
  rw [Nat.cast_zero, zero_mul] at low
  have edge : (0 : ℚ) <
      mantissa - (if mantissa = 2 ^ 52 ∧ -1074 < exponent then 1 / 4 else 1 / 2) := by
    split <;> linarith
  exact absurd low (not_le.mpr (mul_pos edge scale))

theorem last_holds (small : mantissa < 2 ^ 53) (solid : 0 < mantissa) :
    let r := rounding mantissa exponent
    r.holds ((r.neighbours (r.magnitude - 17)).headD 0) (r.magnitude - 17) = true := by
  intro r
  have positive : 0 < r.denominator := denominator_pos mantissa exponent
  have scale : (0 : ℚ) < 2 ^ exponent := zpow_pos two_pos exponent
  have value : (r.value : ℚ) / r.denominator = mantissa * 2 ^ exponent := value_eq _ _
  have given : 0 < r.value :=
    Nat.mul_pos (Nat.mul_pos (by decide) solid) (power_pos (by decide) _)
  have near := @nearest_neighbour r (r.magnitude - 17) positive
  have size := magnitude_le given positive
  rw [value] at near size
  have step : (10 : ℚ) ^ (r.magnitude - 17) * 10 ^ 16 = 10 ^ (r.magnitude - 1) := by
    rw [show r.magnitude - 1 = r.magnitude - 17 + (16 : Nat) by omega,
      zpow_add₀ (by norm_num), zpow_natCast]
  have less : (mantissa : ℚ) * 2 ^ exponent < 2 ^ 53 * 2 ^ exponent := by
    have cast : (mantissa : ℚ) < 2 ^ 53 := by exact_mod_cast small
    gcongr
  rw [abs_le] at near
  obtain ⟨above, below⟩ := near
  rw [holds_iff positive, low_eq solid, high_eq]
  generalize ((r.neighbours (r.magnitude - 17)).headD 0 : ℚ) * 10 ^ (r.magnitude - 17) = point at *
  generalize (10 : ℚ) ^ (r.magnitude - 17) = unit at *
  generalize (2 : ℚ) ^ exponent = spread at *
  rw [← step] at size
  have inside : (mantissa - (if mantissa = 2 ^ 52 ∧ -1074 < exponent then 1 / 4 else 1 / 2)) *
      spread < point ∧ point < (mantissa + 1 / 2) * spread := by
    split
    · rename_i narrow
      have edge : (mantissa : ℚ) = 2 ^ 52 := by exact_mod_cast narrow.1
      rw [edge] at size above below ⊢
      have fine : unit < spread / 2 := by linarith
      constructor <;> linarith
    · have fine : unit < spread := by linarith
      constructor <;> linarith
  split
  · exact ⟨inside.1.le, inside.2.le⟩
  · exact inside

theorem rounds_shortest (small : mantissa < 2 ^ 53) (solid : 0 < mantissa) :
    Rounds mantissa exponent
        ((shortest mantissa exponent).1 * 10 ^ (shortest mantissa exponent).2) ∧
      0 < (shortest mantissa exponent).1 := by
  apply rounds_of_holds solid
  have found := @search_spec (rounding mantissa exponent)
    (rounding mantissa exponent).magnitude 1 16
  rcases found with held | last
  · exact held
  · unfold shortest
    dsimp only
    rw [last]
    exact last_holds small solid

end Rounding

end TypedClient.Binary64
