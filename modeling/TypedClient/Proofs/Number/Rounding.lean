import Mathlib.Algebra.Order.Field.Power
import Mathlib.Data.Rat.Cast.Order
import Mathlib.Tactic.FieldSimp
import Mathlib.Tactic.Linarith
import Mathlib.Tactic.NormNum
import Mathlib.Tactic.Positivity
import Mathlib.Tactic.Ring
import TypedClient.Number.Binary64

/-!
Which double a quotient rounds to: the one in whose rounding interval it lies. What is made by
rounding is in the form of a double, with the largest mantissa that its exponent allows.
-/

namespace TypedClient.Binary64

def Canonical : Binary64 → Prop
  | finite _ mantissa exponent => mantissa < 2 ^ 53 ∧ -1074 ≤ exponent ∧ exponent ≤ 971 ∧
      (2 ^ 52 ≤ mantissa ∨ exponent = -1074)
  | _ => True

section Power

theorem power_of_nonpos (base : Nat) {exponent : Int} (low : exponent ≤ 0) :
    power base exponent = 1 := by
  rw [power, Int.toNat_of_nonpos low]
  rfl

theorem cast_power (base : Nat) {exponent : Int} (high : 0 ≤ exponent) :
    ((power base exponent : Nat) : ℚ) = (base : ℚ) ^ exponent := by
  obtain ⟨n, rfl⟩ := Int.eq_ofNat_of_zero_le high
  simp [power]

theorem power_natCast (base exponent : Nat) : power base exponent = base ^ exponent := rfl

theorem power_pos {base : Nat} (given : 0 < base) (exponent : Int) : 0 < power base exponent :=
  Nat.pow_pos given

theorem power_div_power (base : Nat) (exponent : Int) :
    (power base exponent : ℚ) / power base (-exponent) = (base : ℚ) ^ exponent := by
  rcases le_total 0 exponent with high | low
  · rw [power_of_nonpos base (by omega : -exponent ≤ 0), cast_power base high]
    simp
  · rw [power_of_nonpos base low, cast_power base (by omega : 0 ≤ -exponent), zpow_neg]
    simp

end Power

section Quotient

variable {numerator denominator : Nat}

/-- Rounding is at most by a half off; where it is by a half, it gives an even number. -/
theorem roundQuotient_spec (positive : 0 < denominator) :
    let value := roundQuotient numerator denominator
    2 * (denominator * value) ≤ 2 * numerator + denominator ∧
      2 * numerator ≤ 2 * (denominator * value) + denominator ∧
      (value % 2 = 1 → 2 * (denominator * value) < 2 * numerator + denominator ∧
        2 * numerator < 2 * (denominator * value) + denominator) := by
  have whole := Nat.div_add_mod numerator denominator
  have small := Nat.mod_lt numerator positive
  unfold roundQuotient
  generalize numerator / denominator = quotient at *
  generalize numerator % denominator = rest at *
  have next := Nat.mul_add_one denominator quotient
  dsimp only
  split
  · omega
  · split
    · omega
    · rcases Nat.mod_two_eq_zero_or_one quotient with even | odd
      · rw [even, Nat.add_zero]
        omega
      · rw [odd]
        omega

theorem mul_add_le {low high : Nat} (denominator : Nat) (less : low < high) :
    denominator * low + denominator ≤ denominator * high := by
  rw [← Nat.mul_add_one]
  exact Nat.mul_le_mul_left _ less

theorem le_of_halves {low high : Nat} (positive : 0 < denominator)
    (near : 2 * (denominator * high) ≤ 2 * numerator + denominator)
    (near' : 2 * numerator ≤ 2 * (denominator * low) + denominator)
    (odd : high % 2 = 1 → 2 * (denominator * high) < 2 * numerator + denominator)
    (odd' : low % 2 = 1 → 2 * numerator < 2 * (denominator * low) + denominator) :
    high ≤ low := by
  by_contra order
  have gap := mul_add_le denominator (not_le.mp order)
  rcases Nat.lt_or_ge (low + 1) high with far | next
  · have wide := mul_add_le denominator far
    rw [Nat.mul_add_one] at wide
    omega
  · rcases Nat.mod_two_eq_zero_or_one low with even | one
    · have strict := odd (by omega)
      omega
    · have strict := odd' one
      omega

theorem roundQuotient_lt (positive : 0 < denominator) {bound : Nat} (even : bound % 2 = 0) :
    roundQuotient numerator denominator < bound ↔
      2 * numerator + denominator < 2 * (denominator * bound) := by
  obtain ⟨low, high, odd⟩ := @roundQuotient_spec numerator denominator positive
  generalize roundQuotient numerator denominator = value at *
  constructor
  · intro less
    have gap := mul_add_le denominator less
    rcases Nat.lt_or_ge (value + 1) bound with far | near
    · have wide := mul_add_le denominator far
      rw [Nat.mul_add_one] at wide
      omega
    · have strict := odd (by omega)
      omega
  · intro small
    by_contra above
    have order := Nat.mul_le_mul_left denominator (not_lt.mp above)
    omega

/-- Rounding stays below an even bound if the quotient is by more than a half below it. -/
theorem roundQuotient_lt_iff (positive : 0 < denominator) {bound : Nat} (even : bound % 2 = 0) :
    roundQuotient numerator denominator < bound ↔
      (numerator : ℚ) / denominator < bound - 1 / 2 := by
  have positive' : (0 : ℚ) < denominator := by exact_mod_cast positive
  rw [roundQuotient_lt positive even, div_lt_iff₀ positive']
  constructor
  · intro less
    have less' : 2 * (numerator : ℚ) + denominator < 2 * (denominator * bound) := by
      exact_mod_cast less
    linarith
  · intro less
    have less' : 2 * (numerator : ℚ) + denominator < 2 * (denominator * bound) := by linarith
    exact_mod_cast less'

/-- A quotient that is at most by a half off rounds to a number; an odd number has to be nearer. -/
theorem roundQuotient_eq (positive : 0 < denominator) {value : Nat}
    (low : (value : ℚ) - 1 / 2 ≤ numerator / denominator)
    (high : (numerator : ℚ) / denominator ≤ value + 1 / 2)
    (odd : value % 2 = 1 → (value : ℚ) - 1 / 2 < numerator / denominator ∧
      (numerator : ℚ) / denominator < value + 1 / 2) :
    roundQuotient numerator denominator = value := by
  have positive' : (0 : ℚ) < denominator := by exact_mod_cast positive
  rw [le_div_iff₀ positive'] at low
  rw [div_le_iff₀ positive'] at high
  rw [lt_div_iff₀ positive', div_lt_iff₀ positive'] at odd
  have above : 2 * (denominator * value) ≤ 2 * numerator + denominator := by
    have cast : 2 * ((denominator : ℚ) * value) ≤ 2 * numerator + denominator := by linarith
    exact_mod_cast cast
  have below : 2 * numerator ≤ 2 * (denominator * value) + denominator := by
    have cast : 2 * (numerator : ℚ) ≤ 2 * (denominator * value) + denominator := by linarith
    exact_mod_cast cast
  have strict : value % 2 = 1 → 2 * (denominator * value) < 2 * numerator + denominator ∧
      2 * numerator < 2 * (denominator * value) + denominator := by
    intro one
    obtain ⟨left, right⟩ := odd one
    have cast : 2 * ((denominator : ℚ) * value) < 2 * numerator + denominator := by linarith
    have cast' : 2 * (numerator : ℚ) < 2 * (denominator * value) + denominator := by linarith
    exact ⟨by exact_mod_cast cast, by exact_mod_cast cast'⟩
  obtain ⟨above', below', strict'⟩ := @roundQuotient_spec numerator denominator positive
  generalize roundQuotient numerator denominator = rounded at *
  apply le_antisymm
  · exact le_of_halves positive above' below (fun one => (strict' one).1) fun one => (strict one).2
  · exact le_of_halves positive above below' (fun one => (strict one).1) fun one => (strict' one).2

end Quotient

section Exponent

variable {numerator denominator : Nat} {exponent : Int}

theorem mantissaAt_eq (numerator denominator : Nat) (exponent : Int) :
    mantissaAt numerator denominator exponent =
      roundQuotient (numerator * power 2 (-exponent)) (denominator * power 2 exponent) := by
  unfold mantissaAt
  split
  · rw [power_of_nonpos 2 (by omega : -exponent ≤ 0), Nat.mul_one]
  · rw [power_of_nonpos 2 (by omega : exponent ≤ 0), Nat.mul_one]

theorem scaled_eq (numerator denominator : Nat) (exponent : Int) :
    ((numerator * power 2 (-exponent) : Nat) : ℚ) / (denominator * power 2 exponent : Nat) =
      numerator / denominator / 2 ^ exponent := by
  have scale := power_div_power 2 exponent
  rw [Nat.cast_ofNat] at scale
  rw [← scale]
  push_cast
  rw [div_div_div_eq]

def limit (exponent : Int) : ℚ := (2 ^ 53 - 1 / 2) * 2 ^ exponent

theorem limit_pred (exponent : Int) : limit (exponent - 1) = (2 ^ 52 - 1 / 4) * 2 ^ exponent := by
  rw [limit, zpow_sub_one₀ two_ne_zero]
  ring

theorem limit_bounds (exponent : Int) :
    (2 : ℚ) ^ (exponent + 52) < limit exponent ∧ limit exponent < 2 ^ (exponent + 53) := by
  have scale : (0 : ℚ) < 2 ^ exponent := zpow_pos two_pos exponent
  unfold limit
  rw [zpow_add₀ two_ne_zero, zpow_add₀ two_ne_zero, mul_comm, mul_comm _ ((2 : ℚ) ^ (53 : Int))]
  constructor
  · gcongr
    norm_num
  · gcongr
    norm_num

theorem limit_mono {low high : Int} (order : low ≤ high) : limit low ≤ limit high := by
  have scale : (2 : ℚ) ^ low ≤ 2 ^ high := zpow_le_zpow_right₀ one_le_two order
  unfold limit
  linarith

theorem mantissaAt_lt_iff (positive : 0 < denominator) (exponent : Int) {bound : Nat}
    (even : bound % 2 = 0) :
    mantissaAt numerator denominator exponent < bound ↔
      (numerator : ℚ) / denominator < (bound - 1 / 2) * 2 ^ exponent := by
  have scale : (0 : ℚ) < 2 ^ exponent := zpow_pos two_pos exponent
  rw [mantissaAt_eq,
    roundQuotient_lt_iff (Nat.mul_pos positive (power_pos two_pos exponent)) even, scaled_eq,
    div_lt_iff₀ scale]

theorem fits_iff (positive : 0 < denominator) (exponent : Int) :
    mantissaAt numerator denominator exponent < power 2 53 ↔
      (numerator : ℚ) / denominator < limit exponent := by
  have value : ((power 2 53 : Nat) : ℚ) = 2 ^ 53 := by
    rw [cast_power 2 (by decide)]
    norm_cast
  rw [mantissaAt_lt_iff positive exponent (by decide), limit, value]

def leastExponent (numerator denominator : Nat) : Int :=
  let guess : Int := (numerator.log2 : Int) - denominator.log2 - 53
  let fits (exponent : Int) : Bool := mantissaAt numerator denominator exponent < power 2 53
  if fits guess then guess else if fits (guess + 1) then guess + 1 else guess + 2

theorem ofQuotient_eq (negative : Bool) (given : numerator ≠ 0) :
    ofQuotient negative numerator denominator =
      if 971 < max (-1074) (leastExponent numerator denominator) then infinite negative
      else finite negative
        (mantissaAt numerator denominator (max (-1074) (leastExponent numerator denominator)))
        (max (-1074) (leastExponent numerator denominator)) := by
  unfold ofQuotient leastExponent
  rw [if_neg (by simpa using given)]

theorem log2_bounds (given : 0 < numerator) (positive : 0 < denominator) :
    (2 : ℚ) ^ ((numerator.log2 : Int) - denominator.log2 - 1) < numerator / denominator ∧
      (numerator : ℚ) / denominator < 2 ^ ((numerator.log2 : Int) - denominator.log2 + 1) := by
  have positive' : (0 : ℚ) < denominator := by exact_mod_cast positive
  have bounds {n : Nat} (given : 0 < n) :
      (2 : ℚ) ^ (n.log2 : Int) ≤ n ∧ (n : ℚ) < 2 ^ (n.log2 : Int) * 2 := by
    have low := Nat.log2_self_le given.ne'
    have high := @Nat.lt_log2_self n
    rw [Nat.pow_succ] at high
    constructor
    · exact_mod_cast low
    · exact_mod_cast high
  obtain ⟨low, high⟩ := bounds given
  obtain ⟨low', high'⟩ := bounds positive
  have scale : (0 : ℚ) < 2 ^ (denominator.log2 : Int) := zpow_pos two_pos _
  have scale' : (0 : ℚ) < 2 ^ (numerator.log2 : Int) := zpow_pos two_pos _
  rw [lt_div_iff₀ positive', div_lt_iff₀ positive', zpow_sub₀ two_ne_zero, zpow_sub₀ two_ne_zero,
    zpow_add₀ two_ne_zero, zpow_sub₀ two_ne_zero, zpow_one]
  constructor
  · rw [div_div, div_mul_eq_mul_div, div_lt_iff₀ (by positivity)]
    calc (2 : ℚ) ^ (numerator.log2 : Int) * denominator
        < 2 ^ (numerator.log2 : Int) * (2 ^ (denominator.log2 : Int) * 2) := by gcongr
      _ ≤ numerator * (2 ^ (denominator.log2 : Int) * 2) := by gcongr
  · rw [div_mul_eq_mul_div, div_mul_eq_mul_div, lt_div_iff₀ scale]
    calc (numerator : ℚ) * 2 ^ (denominator.log2 : Int)
        < 2 ^ (numerator.log2 : Int) * 2 * 2 ^ (denominator.log2 : Int) := by gcongr
      _ ≤ 2 ^ (numerator.log2 : Int) * 2 * denominator := by gcongr

theorem leastExponent_spec (given : 0 < numerator) (positive : 0 < denominator) :
    limit (leastExponent numerator denominator - 1) ≤ numerator / denominator ∧
      (numerator : ℚ) / denominator < limit (leastExponent numerator denominator) := by
  obtain ⟨low, high⟩ := log2_bounds given positive
  unfold leastExponent
  simp only [decide_eq_true_eq, fits_iff positive]
  generalize (numerator : ℚ) / denominator = quotient at *
  generalize (numerator.log2 : Int) - denominator.log2 = order at *
  split
  · rename_i fits
    have below := (limit_bounds (order - 53 - 1)).2
    rw [show order - 53 - 1 + 53 = order - 1 by ring] at below
    exact ⟨(below.trans low).le, fits⟩
  · rename_i first
    split
    · rename_i fits
      rw [add_sub_cancel_right]
      exact ⟨not_lt.mp first, fits⟩
    · rename_i second
      have above := (limit_bounds (order - 53 + 2)).1
      rw [show order - 53 + 2 + 52 = order + 1 by ring] at above
      rw [show order - 53 + 2 - 1 = order - 53 + 1 by ring]
      exact ⟨not_lt.mp second, high.trans above⟩

/-- The least exponent lies at or below the exponents at which the quotient fits. -/
theorem leastExponent_le_iff (given : 0 < numerator) (positive : 0 < denominator)
    (exponent : Int) :
    leastExponent numerator denominator ≤ exponent ↔
      (numerator : ℚ) / denominator < limit exponent := by
  obtain ⟨low, high⟩ := leastExponent_spec given positive
  constructor
  · intro order
    exact high.trans_le (limit_mono order)
  · intro fits
    by_contra above
    have order : exponent ≤ leastExponent numerator denominator - 1 := by omega
    exact absurd ((limit_mono order).trans low) (not_le.mpr fits)

end Exponent

section Canonical

variable {numerator denominator : Nat}

theorem canonical_ofQuotient (negative : Bool) (positive : 0 < denominator) :
    (ofQuotient negative numerator denominator).Canonical := by
  by_cases zero : numerator = 0
  · subst zero
    exact ⟨by norm_num, le_refl _, by norm_num, .inr rfl⟩
  have given : 0 < numerator := Nat.pos_of_ne_zero zero
  rw [ofQuotient_eq negative zero]
  split
  · trivial
  · rename_i bounded
    obtain ⟨low, high⟩ := leastExponent_spec given positive
    refine ⟨(fits_iff positive _).mpr ((leastExponent_le_iff given positive _).mp
      (le_max_right _ _)), le_max_left _ _, not_lt.mp bounded, ?_⟩
    rcases le_total (leastExponent numerator denominator) (-1074) with under | beyond
    · exact .inr (max_eq_left under)
    · left
      rw [max_eq_right beyond, ← not_lt, mantissaAt_lt_iff positive _ (by decide), not_lt]
      refine le_trans ?_ low
      rw [limit_pred]
      exact mul_le_mul_of_nonneg_right (by norm_num) (zpow_pos two_pos _).le

/-- The quotients that round to a double that is not zero: at most by half a step off, by less if
the mantissa is odd, and by a quarter below where the step changes. -/
structure Rounds (mantissa : Nat) (exponent : Int) (quotient : ℚ) : Prop where
  low : ((mantissa : ℚ) - (if mantissa = 2 ^ 52 ∧ -1074 < exponent then 1 / 4 else 1 / 2)) *
    2 ^ exponent ≤ quotient
  high : quotient ≤ (mantissa + 1 / 2) * 2 ^ exponent
  odd : mantissa % 2 = 1 → (mantissa - 1 / 2 : ℚ) * 2 ^ exponent < quotient ∧
    quotient < (mantissa + 1 / 2) * 2 ^ exponent

variable {mantissa : Nat} {exponent : Int}

theorem leastExponent_of_rounds {negative : Bool}
    (canonical : (finite negative mantissa exponent).Canonical) (given : 0 < numerator)
    (positive : 0 < denominator)
    (rounds : Rounds mantissa exponent ((numerator : ℚ) / denominator)) :
    max (-1074) (leastExponent numerator denominator) = exponent := by
  obtain ⟨small, least, -, large⟩ := canonical
  have scale : (0 : ℚ) < 2 ^ exponent := zpow_pos two_pos exponent
  have fits : (numerator : ℚ) / denominator < limit exponent := by
    rcases Nat.lt_or_ge mantissa (2 ^ 53 - 1) with below | last
    · have bound : (mantissa : ℚ) + 2 ≤ 2 ^ 53 := by
        exact_mod_cast (by omega : mantissa + 2 ≤ 2 ^ 53)
      refine rounds.high.trans_lt ?_
      unfold limit
      gcongr
      linarith
    · have same : mantissa = 2 ^ 53 - 1 := by omega
      refine (rounds.odd (by omega)).2.trans_le ?_
      rw [limit, same]
      gcongr
      norm_num
  have order := (leastExponent_le_iff given positive exponent).mpr fits
  rcases eq_or_lt_of_le least with lowest | above
  · rw [lowest]
    exact max_eq_left order
  · have beyond : exponent - 1 < leastExponent numerator denominator := by
      rw [← not_le, leastExponent_le_iff given positive, not_lt, limit_pred]
      refine le_trans (mul_le_mul_of_nonneg_right ?_ scale.le) rounds.low
      rcases eq_or_lt_of_le (large.resolve_right above.ne') with edge | inner
      · rw [if_pos ⟨edge.symm, above⟩, ← edge]
        norm_num
      · rw [if_neg fun same => inner.ne' same.1]
        have bound : (2 : ℚ) ^ 52 + 1 ≤ mantissa := by exact_mod_cast inner
        linarith
    omega

theorem ofQuotient_of_rounds {negative : Bool}
    (canonical : (finite negative mantissa exponent).Canonical) (given : 0 < numerator)
    (positive : 0 < denominator)
    (rounds : Rounds mantissa exponent ((numerator : ℚ) / denominator)) :
    ofQuotient negative numerator denominator = finite negative mantissa exponent := by
  have scale : (0 : ℚ) < 2 ^ exponent := zpow_pos two_pos exponent
  have nearest : mantissaAt numerator denominator exponent = mantissa := by
    rw [mantissaAt_eq]
    apply roundQuotient_eq (Nat.mul_pos positive (power_pos two_pos exponent))
    · rw [scaled_eq, le_div_iff₀ scale]
      refine le_trans ?_ rounds.low
      gcongr
      split <;> norm_num
    · rw [scaled_eq, div_le_iff₀ scale]
      exact rounds.high
    · intro one
      rw [scaled_eq, lt_div_iff₀ scale, div_lt_iff₀ scale]
      exact rounds.odd one
  rw [ofQuotient_eq negative given.ne', leastExponent_of_rounds canonical given positive rounds,
    nearest, if_neg (not_lt.mpr canonical.2.2.1)]

end Canonical

end TypedClient.Binary64
