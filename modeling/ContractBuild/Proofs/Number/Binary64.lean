import ContractBuild.Number
import Mathlib.Algebra.Order.Field.Basic
import Mathlib.Algebra.Order.Field.Power
import Mathlib.Data.Nat.Log
import Mathlib.Data.Rat.Cast.Order
import Mathlib.Tactic.FieldSimp
import Mathlib.Tactic.Linarith
import Mathlib.Tactic.NormNum
import Mathlib.Tactic.Positivity
import Mathlib.Tactic.Ring

/-!
# Rounding does not overflow below the greatest number

A ratio is rounded at an exponent where it has 53 bits. From this follow the facts that bound a
product and a quotient: the result is out of range only for ratios close to the power of two behind
the greatest number, a power of two bounds the result if it bounds the ratio, and a natural number
grows by one part in `2 ^ 53` at most.
-/

namespace ContractBuild.Binary64

def toRat (x : Binary64) : ℚ := x.significand * 2 ^ x.exponent

section

variable {num den n : Nat} {r x y : Binary64} {e : Int}

theorem two_zpow_pos (e : Int) : (0 : ℚ) < 2 ^ e := zpow_pos (by norm_num) e

theorem ratio_den_pos (x : Binary64) : 0 < x.ratio.2 := by
  unfold ratio
  split
  · exact Nat.one_pos
  · exact Nat.pow_pos (by decide)

theorem cast_ratio (x : Binary64) : (x.ratio.1 : ℚ) / x.ratio.2 = x.toRat := by
  unfold ratio toRat
  split
  · rename_i up
    obtain ⟨k, eq⟩ := Int.eq_ofNat_of_zero_le up
    simp [eq]
  · rename_i down
    obtain ⟨k, eq⟩ := Int.eq_ofNat_of_zero_le (by omega : 0 ≤ -x.exponent)
    have eq' : x.exponent = -(k : Int) := by omega
    simp [eq', zpow_neg, div_eq_mul_inv]

theorem roundDiv_le (num : Nat) (positive : 0 < den) :
    (roundDiv num den : ℚ) ≤ num / den + 1 / 2 := by
  have split : (num : ℚ) = den * (num / den : Nat) + (num % den : Nat) := by
    exact_mod_cast (Nat.div_add_mod num den).symm
  have positive' : (0 : ℚ) < den := by exact_mod_cast positive
  have ratio : (num : ℚ) / den = (num / den : Nat) + (num % den : Nat) / den := by
    rw [split]
    field_simp
  rw [ratio]
  unfold roundDiv
  dsimp only
  split
  · rename_i up
    have half : (1 : ℚ) / 2 ≤ (num % den : Nat) / den := by
      rw [div_le_div_iff₀ (by norm_num) positive']
      have : den ≤ 2 * (num % den) := by omega
      have : (den : ℚ) ≤ 2 * (num % den : Nat) := by exact_mod_cast this
      linarith
    push_cast
    linarith
  · have : (0 : ℚ) ≤ (num % den : Nat) / den := div_nonneg (Nat.cast_nonneg _) positive'.le
    linarith

def rounded (num den : Nat) (e : Int) : Nat :=
  if 0 ≤ e then roundDiv num (den * Nat.pow 2 e.toNat)
  else roundDiv (num * Nat.pow 2 (-e).toNat) den

theorem rounded_le (num : Nat) (positive : 0 < den) (e : Int) :
    (rounded num den e : ℚ) ≤ num / den / 2 ^ e + 1 / 2 := by
  unfold rounded
  split
  · rename_i up
    obtain ⟨k, eq⟩ := Int.eq_ofNat_of_zero_le up
    have unit := roundDiv_le num (Nat.mul_pos positive (Nat.pow_pos (n := k) (by decide : 0 < 2)))
    simpa [eq, div_div] using unit
  · rename_i down
    obtain ⟨k, eq⟩ := Int.eq_ofNat_of_zero_le (by omega : 0 ≤ -e)
    have eq' : e = -(k : Int) := by omega
    have unit := roundDiv_le (num * 2 ^ k) positive
    simpa [eq', zpow_neg, mul_div_right_comm] using unit

theorem below_iff (num : Nat) (positive : 0 < den) (k : Int) :
    (if 0 ≤ k then num < den * Nat.pow 2 k.toNat else num * Nat.pow 2 (-k).toNat < den) ↔
      (num : ℚ) / den < 2 ^ k := by
  have positive' : (0 : ℚ) < den := by exact_mod_cast positive
  split
  · rename_i up
    obtain ⟨j, rfl⟩ := Int.eq_ofNat_of_zero_le up
    rw [div_lt_iff₀ positive', mul_comm, zpow_natCast, Int.toNat_natCast]
    exact_mod_cast Iff.rfl
  · rename_i down
    obtain ⟨j, eq⟩ := Int.eq_ofNat_of_zero_le (by omega : 0 ≤ -k)
    obtain rfl : k = -(j : Int) := by omega
    rw [zpow_neg, zpow_natCast, div_lt_iff₀ positive', Int.neg_neg, Int.toNat_natCast,
      inv_mul_eq_div, lt_div_iff₀ (by positivity)]
    exact_mod_cast Iff.rfl

theorem log2_bounds (positive : 0 < n) :
    (2 : ℚ) ^ (n.log2 : Int) ≤ n ∧ (n : ℚ) < 2 ^ (n.log2 + 1 : Int) := by
  have low : 2 ^ n.log2 ≤ n := Nat.log2_self_le (by omega)
  have high : n < 2 ^ (n.log2 + 1) := Nat.lt_log2_self
  constructor
  · rw [zpow_natCast]
    exact_mod_cast low
  · exact_mod_cast high

theorem log2_ratio_bounds (some : 0 < num) (positive : 0 < den) :
    (2 : ℚ) ^ (num.log2 - den.log2 - 1 : Int) ≤ num / den ∧
      (num : ℚ) / den < 2 ^ (num.log2 - den.log2 + 1 : Int) := by
  have positive' : (0 : ℚ) < den := by exact_mod_cast positive
  obtain ⟨numLow, numHigh⟩ := log2_bounds some
  obtain ⟨denLow, denHigh⟩ := log2_bounds positive
  constructor
  · rw [le_div_iff₀ positive']
    calc (2 : ℚ) ^ (num.log2 - den.log2 - 1 : Int) * den
        ≤ 2 ^ (num.log2 - den.log2 - 1 : Int) * 2 ^ (den.log2 + 1 : Int) :=
          mul_le_mul_of_nonneg_left denHigh.le (two_zpow_pos _).le
      _ = 2 ^ (num.log2 : Int) := by
          rw [← zpow_add₀ (by norm_num)]
          congr 1
          omega
      _ ≤ num := numLow
  · rw [div_lt_iff₀ positive']
    calc (num : ℚ) < 2 ^ (num.log2 + 1 : Int) := numHigh
      _ = 2 ^ (num.log2 - den.log2 + 1 : Int) * 2 ^ (den.log2 : Int) := by
          rw [← zpow_add₀ (by norm_num)]
          congr 1
          omega
      _ ≤ 2 ^ (num.log2 - den.log2 + 1 : Int) * den :=
          mul_le_mul_of_nonneg_left denLow (two_zpow_pos _).le

theorem two_zpow_le {a b : Int} (le : a ≤ b) : (2 : ℚ) ^ a ≤ 2 ^ b :=
  zpow_le_zpow_right₀ (by norm_num) le

theorem exponentOf_eq (num : Nat) (positive : 0 < den) : exponentOf num den =
    max leastExponent (if (num : ℚ) / den < 2 ^ (num.log2 - den.log2 : Int)
      then num.log2 - den.log2 - 53 else num.log2 - den.log2 - 52) :=
  congrArg (max leastExponent) (if_congr (below_iff num positive (num.log2 - den.log2)) rfl rfl)

/-- The ratio has at most 53 bits at its exponent, and not fewer unless that is the least one. -/
theorem exponentOf_bounds (some : 0 < num) (positive : 0 < den) :
    (num : ℚ) / den < 2 ^ (53 + exponentOf num den) ∧
      (exponentOf num den = leastExponent ∨ (2 : ℚ) ^ (52 + exponentOf num den) ≤ num / den) := by
  obtain ⟨low, high⟩ := log2_ratio_bounds some positive
  rw [exponentOf_eq num positive]
  split
  · rename_i below
    refine ⟨below.trans_le (two_zpow_le (by omega)), ?_⟩
    rcases le_total ((num.log2 : Int) - den.log2 - 53) leastExponent with least | enough
    · exact .inl (max_eq_left least)
    · rw [max_eq_right enough]
      exact .inr ((two_zpow_le (by omega)).trans low)
  · rename_i above
    refine ⟨high.trans_le (two_zpow_le (by omega)), ?_⟩
    rcases le_total ((num.log2 : Int) - den.log2 - 52) leastExponent with least | enough
    · exact .inl (max_eq_left least)
    · rw [max_eq_right enough]
      exact .inr ((two_zpow_le (by omega)).trans (not_lt.1 above))

structure Finite (x : Binary64) : Prop where
  significand : x.significand < precision
  exponent : x.exponent ≤ greatestExponent

theorem ofRatio_eq (some : 0 < num) (den : Nat) : ofRatio num den =
    let e := exponentOf num den
    let q := rounded num den e
    let (q, e) := if q = precision then (precision / 2, e + 1) else (q, e)
    if q = 0 then Option.some zero
    else if greatestExponent < e then none else Option.some ⟨false, q, e⟩ := by
  rw [ofRatio, if_neg (Nat.ne_of_gt some)]
  rfl

theorem ofRatio_eq_none (some : 0 < num) (none : ofRatio num den = none) :
    greatestExponent < exponentOf num den ∨ exponentOf num den = greatestExponent ∧
      rounded num den (exponentOf num den) = precision := by
  rw [ofRatio_eq some] at none
  by_cases full : rounded num den (exponentOf num den) = precision
  · simp only [full, if_true] at none
    rw [if_neg (by decide)] at none
    by_contra fits
    rw [if_neg (by omega)] at none
    cases none
  · simp only [full, if_false] at none
    by_contra fits
    rw [if_neg (show ¬ greatestExponent < exponentOf num den by omega)] at none
    split at none <;> cases none

theorem cast_precision : (precision : ℚ) = 2 ^ (53 : Int) := by norm_num [precision]

theorem rounded_le_precision (some : 0 < num) (positive : 0 < den) :
    rounded num den (exponentOf num den) ≤ precision := by
  have few := (exponentOf_bounds some positive).1
  rw [zpow_add₀ (by norm_num), ← cast_precision, ← div_lt_iff₀ (two_zpow_pos _)] at few
  have near := rounded_le num positive (exponentOf num den)
  have close : (rounded num den (exponentOf num den) : ℚ) < (precision + 1 : Nat) := by
    push_cast
    linarith
  exact Nat.lt_succ_iff.1 (by exact_mod_cast close)

theorem ofRatio_eq_some (some : 0 < num) (positive : 0 < den)
    (found : ofRatio num den = Option.some r) : r.Finite ∧
      r.toRat = rounded num den (exponentOf num den) * 2 ^ exponentOf num den := by
  rw [ofRatio_eq some] at found
  by_cases full : rounded num den (exponentOf num den) = precision
  · simp only [full, if_true] at found
    rw [if_neg (by decide)] at found
    split at found <;> cases found
    rename_i fits
    refine ⟨⟨(by decide : precision / 2 < precision), not_lt.1 fits⟩, ?_⟩
    rw [toRat, full, zpow_add_one₀ (by norm_num)]
    norm_num [precision]
    ring
  · have less := lt_of_le_of_ne (rounded_le_precision some positive) full
    simp only [full, if_false] at found
    split at found
    · rename_i none
      cases found
      refine ⟨⟨by decide, by decide⟩, ?_⟩
      rw [none]
      simp [toRat, zero]
    · split at found <;> cases found
      rename_i fits
      exact ⟨⟨less, not_lt.1 fits⟩, rfl⟩

theorem ofRatio_isSome (positive : 0 < den)
    (small : (num : ℚ) / den < (precision - 1) * 2 ^ greatestExponent) :
    (ofRatio num den).isSome = true := by
  rcases Nat.eq_zero_or_pos num with rfl | some
  · rfl
  rw [Option.isSome_iff_ne_none]
  intro none
  obtain ⟨few, least | many⟩ := exponentOf_bounds some positive
  · rcases ofRatio_eq_none some none with great | ⟨great, -⟩ <;> rw [least] at great <;>
      exact absurd great (by decide)
  have below : exponentOf num den ≤ greatestExponent := by
    by_contra above
    have much : (precision : ℚ) * 2 ^ greatestExponent ≤ num / den := by
      rw [cast_precision, ← zpow_add₀ (by norm_num)]
      exact (two_zpow_le (by omega)).trans many
    have := two_zpow_pos greatestExponent
    linarith
  rcases ofRatio_eq_none some none with great | ⟨great, full⟩
  · omega
  · have near := rounded_le num positive (exponentOf num den)
    rw [full, great] at near
    rw [← div_lt_iff₀ (two_zpow_pos _)] at small
    linarith

theorem two_zpow_half_le
    (many : (2 : ℚ) ^ (52 + exponentOf num den) ≤ num / den) :
    (2 : ℚ) ^ exponentOf num den / 2 ≤ num / den / precision := by
  rw [cast_precision, le_div_iff₀ (two_zpow_pos _)]
  calc (2 : ℚ) ^ exponentOf num den / 2 * 2 ^ (53 : Int)
      = 2 ^ (52 + exponentOf num den) := by
        rw [zpow_add₀ (by norm_num)]
        norm_num
        ring
    _ ≤ num / den := many

theorem toRat_le (some : 0 < num) (positive : 0 < den) (found : ofRatio num den = Option.some r) :
    r.toRat ≤ num / den + 2 ^ exponentOf num den / 2 := by
  have unit := two_zpow_pos (exponentOf num den)
  have near := rounded_le num positive (exponentOf num den)
  rw [(ofRatio_eq_some some positive found).2]
  calc (rounded num den (exponentOf num den) : ℚ) * 2 ^ exponentOf num den
      ≤ (num / den / 2 ^ exponentOf num den + 1 / 2) * 2 ^ exponentOf num den :=
        mul_le_mul_of_nonneg_right near unit.le
    _ = num / den + 2 ^ exponentOf num den / 2 := by
        rw [add_mul, div_mul_cancel₀ _ unit.ne']
        ring

theorem toRat_le_two_pow (positive : 0 < den) (found : ofRatio num den = Option.some r) {k : Nat}
    (bound : (num : ℚ) / den ≤ 2 ^ k) : r.toRat ≤ 2 ^ k := by
  rcases Nat.eq_zero_or_pos num with rfl | some
  · cases found
    simp [toRat, zero]
  rw [(ofRatio_eq_some some positive found).2]
  have within : exponentOf num den ≤ k := by
    rcases (exponentOf_bounds some positive).2 with least | many
    · rw [least, leastExponent]
      omega
    · by_contra above
      have more : (2 : ℚ) ^ (k + 1 : Int) ≤ 2 ^ k := (two_zpow_le (by omega)).trans (many.trans bound)
      rw [zpow_add_one₀ (by norm_num), zpow_natCast] at more
      have := two_zpow_pos k
      rw [zpow_natCast] at this
      linarith
  obtain ⟨j, eq⟩ := Int.eq_ofNat_of_zero_le (by omega : 0 ≤ k - exponentOf num den)
  have split : (2 : ℚ) ^ k = 2 ^ j * 2 ^ exponentOf num den := by
    rw [← zpow_natCast, ← zpow_natCast, ← zpow_add₀ (by norm_num)]
    congr 1
    omega
  have near := rounded_le num positive (exponentOf num den)
  rw [split, ← div_le_iff₀ (two_zpow_pos _)] at bound
  have few : rounded num den (exponentOf num den) ≤ 2 ^ j := by
    have close : (rounded num den (exponentOf num den) : ℚ) < (2 ^ j + 1 : Nat) := by
      push_cast
      linarith
    exact Nat.lt_succ_iff.1 (by exact_mod_cast close)
  rw [split]
  exact mul_le_mul_of_nonneg_right (by exact_mod_cast few) (two_zpow_pos _).le

theorem toRat_ofNat_le (found : ofNat n = Option.some r) :
    r.toRat ≤ n * (1 + 1 / precision) := by
  rcases Nat.eq_zero_or_pos n with rfl | some
  · cases found
    simp [toRat, zero]
  have near := toRat_le some Nat.one_pos found
  obtain ⟨few, least | many⟩ := exponentOf_bounds some Nat.one_pos
  · have one : (1 : ℚ) ≤ n := by exact_mod_cast some
    have less : (2 : ℚ) ^ (53 + leastExponent) ≤ 2 ^ (0 : Int) := two_zpow_le (by decide)
    rw [least, Nat.cast_one, div_one] at few
    rw [zpow_zero] at less
    linarith
  · have half := two_zpow_half_le many
    rw [Nat.cast_one, div_one] at near half
    rw [mul_add, mul_one_div, mul_one]
    linarith

theorem toRat_nonneg (x : Binary64) : 0 ≤ x.toRat :=
  mul_nonneg (Nat.cast_nonneg _) (two_zpow_pos _).le

theorem ratio_num_pos (positive : 0 < x.toRat) : 0 < x.ratio.1 := by
  rw [← cast_ratio] at positive
  by_contra none
  rw [Nat.eq_zero_of_not_pos none, Nat.cast_zero, zero_div] at positive
  exact lt_irrefl _ positive

theorem two_pow_64_lt : (2 : ℚ) ^ 64 < (precision - 1) * 2 ^ greatestExponent := by
  have less : (2 : ℚ) ^ (64 : Int) ≤ 2 ^ greatestExponent := two_zpow_le (by decide)
  have positive := two_zpow_pos greatestExponent
  have more : (1 : ℚ) < precision - 1 := by norm_num [precision]
  calc (2 : ℚ) ^ 64 ≤ 1 * 2 ^ greatestExponent := by rw [one_mul]; exact_mod_cast less
    _ < (precision - 1) * 2 ^ greatestExponent := mul_lt_mul_of_pos_right more positive

theorem two_pow_1024_lt : 2 ^ 1024 < 10 ^ (greatestPower + 1) := by decide +kernel

theorem mul_isSome (small : x.toRat * y.toRat < (precision - 1) * 2 ^ greatestExponent) :
    (x.mul y).isSome = true := by
  refine ofRatio_isSome (Nat.mul_pos x.ratio_den_pos y.ratio_den_pos) ?_
  rw [Nat.cast_mul, Nat.cast_mul, mul_div_mul_comm, cast_ratio, cast_ratio]
  exact small

theorem div_bounded (large : 1 ≤ y.toRat) (small : x.toRat ≤ 2 ^ 64) :
    ∃ q, x.div y = some q ∧ q.toRat ≤ 2 ^ 64 := by
  have positive : 0 < x.ratio.2 * y.ratio.1 :=
    Nat.mul_pos x.ratio_den_pos (ratio_num_pos (by linarith))
  have bound : ((x.ratio.1 * y.ratio.2 : Nat) : ℚ) / (x.ratio.2 * y.ratio.1 : Nat) ≤ 2 ^ 64 := by
    rw [Nat.cast_mul, Nat.cast_mul, mul_div_mul_comm, cast_ratio, ← inv_div, cast_ratio,
      ← div_eq_mul_inv]
    exact (div_le_self x.toRat_nonneg large).trans small
  obtain ⟨q, found⟩ := Option.isSome_iff_exists.1 (ofRatio_isSome positive
    (bound.trans_lt two_pow_64_lt))
  exact ⟨q, found, toRat_le_two_pow positive found bound⟩

theorem one_le_power {k : Nat} (known : k ≤ greatestPower) : 1 ≤ (power k).toRat := by
  have all : ∀ k < greatestPower + 1, (power k).ratio.2 ≤ (power k).ratio.1 := by decide +kernel
  rw [← cast_ratio, one_le_div (by exact_mod_cast ratio_den_pos _)]
  exact_mod_cast all k (Nat.lt_succ_of_le known)

theorem shrink_bounded (small : x.toRat ≤ 2 ^ 64) (steps : Nat) :
    ∃ q, x.shrink steps = some q ∧ q.toRat ≤ 2 ^ 64 := by
  induction steps generalizing x with
  | zero => exact ⟨x, rfl, small⟩
  | succ steps ih =>
    rw [shrink]
    split
    · exact ⟨x, rfl, small⟩
    · obtain ⟨q, found, small⟩ := div_bounded (one_le_power (Nat.le_refl _)) small
      rw [found]
      exact ih small

theorem scaleDown_isSome (small : x.toRat ≤ 2 ^ 64) (k : Nat) : (x.scaleDown k).isSome = true := by
  obtain ⟨q, found, small⟩ := shrink_bounded small ((k - 1) / greatestPower)
  have last : k - (k - 1) / greatestPower * greatestPower ≤ greatestPower := by
    simp only [greatestPower]
    omega
  obtain ⟨q', found', -⟩ := div_bounded (one_le_power last) small
  rw [scaleDown, found]
  exact Option.isSome_iff_exists.2 ⟨q', found'⟩

theorem ofNat_bounded (small : n ≤ 2 ^ 64) : ∃ x, ofNat n = some x ∧ x.toRat ≤ 2 ^ 64 := by
  have bound : (n : ℚ) / (1 : Nat) ≤ 2 ^ 64 := by
    rw [Nat.cast_one, div_one]
    exact_mod_cast small
  obtain ⟨x, found⟩ := Option.isSome_iff_exists.1 (ofRatio_isSome Nat.one_pos
    (bound.trans_lt two_pow_64_lt))
  exact ⟨x, found, toRat_le_two_pow Nat.one_pos found bound⟩

theorem ofDecimal_isSome_of_neg (small : n ≤ 2 ^ 64) (down : e < 0) :
    (ofDecimal n e).isSome = true := by
  obtain ⟨x, found, bound⟩ := ofNat_bounded small
  simp only [ofDecimal, found, Option.bind_eq_bind, Option.bind_some, if_pos down]
  exact scaleDown_isSome bound _

theorem toRat_power_le (k : Nat) : (power k).toRat ≤ 10 ^ k * (1 + 1 / precision) := by
  rw [power]
  cases found : ofNat (Nat.pow 10 k) with
  | none =>
    simp only [Option.getD_none, toRat, zero, Nat.cast_zero, zero_mul]
    positivity
  | some r =>
    have bound := toRat_ofNat_le found
    rw [Nat.pow_eq] at bound
    exact_mod_cast bound

theorem ofDecimal_isSome_of_nonneg {k : Nat} (small : n ≤ 2 ^ 64) (known : k ≤ greatestPower)
    (bound : n * 10 ^ k * (1 + 1 / precision) ^ 2 < ((precision : ℚ) - 1) * 2 ^ greatestExponent) :
    (ofDecimal n k).isSome = true := by
  obtain ⟨x, found, -⟩ := ofNat_bounded small
  have up : ¬ (k : Int) < 0 := by omega
  have fits : (k : Int).toNat ≤ greatestPower := known
  simp only [ofDecimal, found, Option.bind_eq_bind, Option.bind_some, if_neg up, if_pos fits]
  refine mul_isSome (lt_of_le_of_lt ?_ bound)
  calc x.toRat * (power k).toRat
      ≤ (n * (1 + 1 / precision)) * (10 ^ k * (1 + 1 / precision)) :=
        mul_le_mul (toRat_ofNat_le found) (toRat_power_le k) (toRat_nonneg _) (by positivity)
    _ = n * 10 ^ k * (1 + 1 / precision) ^ 2 := by ring

theorem ofRatio_finite (positive : 0 < den) (found : ofRatio num den = some r) : r.Finite := by
  rcases Nat.eq_zero_or_pos num with rfl | some
  · cases found
    exact ⟨by decide, by decide⟩
  · exact (ofRatio_eq_some some positive found).1

theorem power_num_pos {k : Nat} (known : k ≤ greatestPower) : 0 < (power k).ratio.1 :=
  ratio_num_pos (zero_lt_one.trans_le (one_le_power known))

theorem ofDecimal_finite (found : ofDecimal n e = some r) : r.Finite := by
  simp only [ofDecimal, Option.bind_eq_bind, Option.bind_eq_some_iff] at found
  obtain ⟨x, first, found⟩ := found
  split at found
  · simp only [scaleDown, Option.bind_eq_bind, Option.bind_eq_some_iff] at found
    obtain ⟨y, -, found⟩ := found
    refine ofRatio_finite (Nat.mul_pos y.ratio_den_pos (power_num_pos ?_)) found
    simp only [greatestPower]
    omega
  · split at found
    · exact ofRatio_finite (Nat.mul_pos x.ratio_den_pos (ratio_den_pos _)) found
    · split at found <;> cases found
      exact ofRatio_finite Nat.one_pos first

end

end ContractBuild.Binary64
