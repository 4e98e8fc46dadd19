import ContractBuild.Proofs.Number.Binary64
import ContractBuild.Proofs.Number.Digits
import ContractBuild.Proofs.Number.Shortest
import Mathlib.Data.Nat.Cast.Order.Field

/-!
# How large a shortest decimal is

A shortest decimal has 17 digits at most, and it does not lie above the interval of the reals that
round to the number.
-/

namespace ContractBuild.Shortest

open Binary64 Digits

variable {i : Interval} {n num den : Nat} {p : Int} {x : Binary64}

theorem ten_zpow_pos (p : Int) : (0 : ℚ) < 10 ^ p := zpow_pos (by norm_num) p

theorem point_den_pos (n : Nat) (p : Int) : 0 < (point n p).2 := by
  unfold point
  split
  · exact Nat.one_pos
  · exact Nat.pow_pos (by decide)

theorem cast_point (n : Nat) (p : Int) : ((point n p).1 : ℚ) / (point n p).2 = n * 10 ^ p := by
  unfold point
  split
  · rename_i up
    obtain ⟨k, rfl⟩ := Int.eq_ofNat_of_zero_le up
    simp
  · rename_i down
    obtain ⟨k, eq⟩ := Int.eq_ofNat_of_zero_le (by omega : 0 ≤ -p)
    obtain rfl : p = -(k : Int) := by omega
    simp [zpow_neg, div_eq_mul_inv]

theorem Interval.le_of_holds (positive : 0 < i.den) (holds : i.holds n p = true) :
    (n : ℚ) * 10 ^ p ≤ i.high / i.den := by
  have below : (point n p).1 * i.den ≤ i.high * (point n p).2 := by
    simp only [Interval.holds] at holds
    split at holds
    · simp only [Bool.and_eq_true, decide_eq_true_eq] at holds
      exact holds.2
    · simp only [Bool.and_eq_true, decide_eq_true_eq] at holds
      exact holds.2.le
  rw [← cast_point, div_le_div_iff₀ (by exact_mod_cast point_den_pos n p) (by exact_mod_cast positive)]
  exact_mod_cast below

theorem Interval.floor_le (i : Interval) (p : Int) :
    (i.floor p : ℚ) ≤ i.value / i.den / 10 ^ p := by
  unfold Interval.floor
  split
  · rename_i up
    obtain ⟨k, rfl⟩ := Int.eq_ofNat_of_zero_le up
    refine Nat.cast_div_le.trans_eq ?_
    simp [div_div]
  · rename_i down
    obtain ⟨k, eq⟩ := Int.eq_ofNat_of_zero_le (by omega : 0 ≤ -p)
    obtain rfl : p = -(k : Int) := by omega
    refine Nat.cast_div_le.trans_eq ?_
    simp [zpow_neg, mul_div_right_comm]

theorem Interval.onGrid_spec (found : i.onGrid p = some n) :
    i.holds n p = true ∧ n ≤ i.floor p + 1 := by
  simp only [Interval.onGrid] at found
  split at found
  · rename_i here above
    cases found
    rcases i.nearer_eq (i.floor p) p with eq | eq <;> rw [eq]
    · exact ⟨here, Nat.le_succ _⟩
    · exact ⟨above, Nat.le_refl _⟩
  · rename_i here above
    cases found
    exact ⟨here, Nat.le_succ _⟩
  · rename_i here above
    cases found
    exact ⟨above, Nat.le_refl _⟩
  · cases found

theorem lt_ten_pow_magnitude (some : 0 < num) (positive : 0 < den) :
    (num : ℚ) / den < 10 ^ magnitude num den := by
  have positive' : (0 : ℚ) < den := by exact_mod_cast positive
  rw [div_lt_iff₀ positive']
  unfold magnitude digitCount
  split
  · have above : num < 10 ^ (digits (num / den)).length * den :=
      Nat.lt_mul_of_div_lt (lt_pow_length (num / den)) positive
    rw [zpow_natCast]
    exact_mod_cast above
  · rename_i less
    have whole : (den - 1) / num ≠ 0 := (Nat.div_pos (by omega) some).ne'
    have shorter := Nat.mul_le_mul_left num (pow_length_le whole)
    have below : num * 10 ^ ((digits ((den - 1) / num)).length - 1) < den := by
      have := Nat.mul_div_le (den - 1) num
      omega
    have one := List.length_pos_iff.2 (digits_ne_nil ((den - 1) / num))
    have exponent : (1 : Int) - (digits ((den - 1) / num)).length =
        -((digits ((den - 1) / num)).length - 1 : Nat) := by omega
    rw [exponent, zpow_neg, zpow_natCast, inv_mul_eq_div, lt_div_iff₀ (by positivity)]
    exact_mod_cast below

/-- The decimal that is found does not lie above the interval, and has at most 17 digits. -/
theorem Interval.search_spec (positive : 0 < i.den) {top : Int}
    (below : (i.value : ℚ) / i.den < 10 ^ top) (digits tries : Nat) (few : digits + tries ≤ 18) :
    ((i.search top digits tries).1 : ℚ) * 10 ^ (i.search top digits tries).2 ≤ i.high / i.den ∧
      (i.search top digits tries).1 ≤ 10 ^ 17 := by
  induction tries generalizing digits with
  | zero =>
    refine ⟨?_, Nat.zero_le _⟩
    rw [Interval.search, Nat.cast_zero, zero_mul]
    positivity
  | succ tries ih =>
    rw [Interval.search]
    split
    · rename_i n found
      obtain ⟨holds, near⟩ := Interval.onGrid_spec found
      have inside := Interval.le_of_holds positive holds
      split
      · rename_i power
        refine ⟨?_, by norm_num⟩
        rw [power] at inside
        calc ((1 : Nat) : ℚ) * 10 ^ top = (Nat.pow 10 digits : Nat) * 10 ^ (top - digits) := by
              rw [Nat.pow_eq, Nat.cast_one, one_mul, Nat.cast_pow, Nat.cast_ofNat, ← zpow_natCast,
                ← zpow_add₀ (by norm_num)]
              congr 1
              omega
          _ ≤ i.high / i.den := inside
      · refine ⟨inside, ?_⟩
        have floor := i.floor_le (top - digits)
        have less : (i.value : ℚ) / i.den / 10 ^ (top - digits) < 10 ^ digits := by
          rw [div_lt_iff₀ (ten_zpow_pos _), ← zpow_natCast, ← zpow_add₀ (by norm_num)]
          simpa using below
        have short : i.floor (top - digits) < 10 ^ digits := by
          exact_mod_cast floor.trans_lt less
        have all : 10 ^ digits ≤ 10 ^ 17 := Nat.pow_le_pow_right (by decide) (by omega)
        omega
    · exact ih (digits + 1) (by omega)

theorem interval_den_pos (x : Binary64) : 0 < (interval x).den :=
  Nat.mul_pos (by decide) (ratio_den_pos _)

theorem cast_unit (e : Int) : ((ratio ⟨false, 1, e⟩).1 : ℚ) / (ratio ⟨false, 1, e⟩).2 = 2 ^ e := by
  rw [cast_ratio, toRat, Nat.cast_one, one_mul]

theorem interval_high (x : Binary64) :
    ((interval x).high : ℚ) / (interval x).den = (x.significand + 1 / 2) * 2 ^ x.exponent := by
  simp only [interval, Nat.cast_mul, mul_div_mul_comm, cast_unit]
  push_cast
  ring

theorem decimal_spec (nonzero : x.isZero = false) :
    ((decimal x).1 : ℚ) * 10 ^ (decimal x).2 ≤ (x.significand + 1 / 2) * 2 ^ x.exponent ∧
      (decimal x).1 ≤ 10 ^ 17 := by
  rw [← interval_high, decimal, nonzero]
  exact Interval.search_spec (interval_den_pos x)
    (lt_ten_pow_magnitude (interval_value_pos nonzero) (interval_den_pos x)) 1 17 (by decide)

end ContractBuild.Shortest
