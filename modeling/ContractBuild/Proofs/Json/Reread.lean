import ContractBuild.Proofs.Json.Numbers
import ContractBuild.Proofs.Number.Range

/-!
# Numbers that were read can be read again

Reals are read with errors and printed without, so a real may come back from its text as another
one. But it does come back: the text of a number that was read is never out of range. Only the
greatest reals come near the border, where both errors of rounding have to be taken into account;
the three greatest are tried one by one.
-/

namespace ContractBuild.Json

open Shortest Binary64

namespace Numeral

variable {x : Numeral}

theorem value_of_fits (fits : Digits.number (x.whole ++ x.fraction) < UInt64.size)
    (point : x.fraction ≠ [] ∨ x.exponent ≠ none) : x.value =
      x.real (Digits.number (x.whole ++ x.fraction))
        (x.exponent.getD 0 - x.fraction.length) := by
  rw [Digits.number, List.foldl_append] at fits ⊢
  have front : x.whole.foldl Digits.push 0 < UInt64.size :=
    Nat.lt_of_le_of_lt (Digits.le_foldl_push _ x.fraction) fits
  unfold value
  rw [Number.absorb_of_lt front]
  split
  · rename_i none none'
    simp [none, none'] at point
  · rename_i eq _
    cases eq
    rw [Number.absorb_of_lt fits]
    simp only [List.length_nil]
    congr 1
    omega

theorem value_isSome_of_fits (fits : Digits.number (x.whole ++ x.fraction) < UInt64.size)
    (point : x.fraction ≠ [] ∨ x.exponent ≠ none)
    (range : (ofDecimal (Digits.number (x.whole ++ x.fraction))
      (x.exponent.getD 0 - x.fraction.length)).isSome = true) : x.value.isSome = true := by
  rw [value_of_fits fits point, real, Option.isSome_map]
  exact range

end Numeral

def Number.Readable (n : Number) : Prop := n.numeral.value.isSome = true

section

variable {n : Nat} {p : Int} {negative : Bool} {x : Binary64}

theorem foldl_zeros (k n : Nat) : (zeros k).foldl Digits.push n = n * 10 ^ k := by
  induction k generalizing n with
  | zero => simp [zeros]
  | succ k ih =>
    have digit : Digits.push n '0' = n * 10 := by
      rw [Digits.push, Nat.mul_comm]
      rfl
    rw [zeros, List.replicate_succ, List.foldl_cons, digit]
    exact (ih (n * 10)).trans (by rw [Nat.pow_succ', Nat.mul_assoc])

theorem positional_value_isSome (few : n ≤ 10 ^ 17) {point : Int} (short : point ≤ 16) :
    (positionalNumeral negative (Digits.digits n) point).value.isSome = true := by
  have size : (10 : Nat) ^ 17 * 10 < UInt64.size := by decide
  have whole := Digits.number_digits n
  unfold positionalNumeral
  split
  · rename_i long
    have number : Digits.number (Digits.digits n ++ zeros (point.toNat - (Digits.digits n).length) ++
        ['0']) < 10 ^ 17 := by
      refine (Digits.number_lt ?_).trans_le (Nat.pow_le_pow_right (by decide) ?_)
      · simp [all_isDigit_digits, all_isDigit_zeros]
      · simp [zeros]
        omega
    refine Numeral.value_isSome_of_fits (number.trans (by omega)) (.inl (List.cons_ne_nil _ _)) ?_
    exact ofDecimal_isSome_of_neg (number.le.trans (by decide)) (by simp)
  · split
    · have number : Digits.number ((Digits.digits n).take point.toNat ++
          (Digits.digits n).drop point.toNat) = n := by
        rw [List.take_append_drop, whole]
      have behind : (Digits.digits n).drop point.toNat ≠ [] := by
        rw [Ne, List.drop_eq_nil_iff]
        omega
      have some := List.length_pos_iff.2 behind
      refine Numeral.value_isSome_of_fits (number.trans_lt (by omega)) (.inl behind) ?_
      exact ofDecimal_isSome_of_neg (number.trans_le (by omega)) (by simp only [Option.getD_none]; omega)
    · have number : Digits.number (['0'] ++ (zeros (-point).toNat ++ Digits.digits n)) = n := by
        rw [Digits.number, List.foldl_append, List.foldl_append]
        have zero : Digits.push 0 '0' = 0 := rfl
        rw [List.foldl_cons, List.foldl_nil, zero, foldl_zeros, Nat.zero_mul]
        exact whole
      have behind : zeros (-point).toNat ++ Digits.digits n ≠ [] := by simp [Digits.digits_ne_nil]
      have some := List.length_pos_iff.2 behind
      refine Numeral.value_isSome_of_fits (number.trans_lt (by omega)) (.inl behind) ?_
      exact ofDecimal_isSome_of_neg (number.trans_le (by omega)) (by simp only [Option.getD_none]; omega)

theorem scientific_value_isSome (few : n ≤ 10 ^ 17)
    (range : (ofDecimal n p).isSome = true) :
    (scientificNumeral negative (Digits.digits n) ((Digits.digits n).length + p)).value.isSome =
      true := by
  have number : Digits.number ((Digits.digits n).take 1 ++ (Digits.digits n).drop 1) = n := by
    rw [List.take_append_drop, Digits.number_digits]
  have size : (10 : Nat) ^ 17 < UInt64.size := by decide
  have some := List.length_pos_iff.2 (Digits.digits_ne_nil n)
  refine Numeral.value_isSome_of_fits (number.trans_lt (by omega)) (.inr nofun) ?_
  have exponent : ((Digits.digits n).length + p - 1 : Int) - ((Digits.digits n).drop 1).length = p := by
    rw [List.length_drop]
    omega
  simp only [scientificNumeral, Option.getD_some, exponent, number]
  exact range

theorem readable_top (negative : Bool) {s : Nat} (top : precision - 3 ≤ s) (less : s < precision) :
    (realNumeral ⟨negative, s, greatestExponent⟩).value.isSome = true := by
  obtain rfl | rfl | rfl : s = precision - 3 ∨ s = precision - 2 ∨ s = precision - 1 := by omega
  all_goals cases negative <;> decide +kernel

theorem with_errors_lt {a c : ℚ} (bound : a ≤ c * 2 ^ greatestExponent)
    (room : c * (1 + 1 / precision) ^ 2 < precision - 1) :
    a * (1 + 1 / precision) ^ 2 < (precision - 1) * 2 ^ greatestExponent := by
  have top := two_zpow_pos greatestExponent
  have errors : (0 : ℚ) ≤ (1 + 1 / precision) ^ 2 := by norm_num [precision]
  calc a * (1 + 1 / precision) ^ 2
      ≤ c * 2 ^ greatestExponent * (1 + 1 / precision) ^ 2 :=
        mul_le_mul_of_nonneg_right bound errors
    _ = c * (1 + 1 / precision) ^ 2 * 2 ^ greatestExponent := by ring
    _ < ((precision : ℚ) - 1) * 2 ^ greatestExponent := mul_lt_mul_of_pos_right room top

theorem scaled_lt (finite : x.Finite) (below : x.significand + 3 < precision ∨ x.exponent <
    greatestExponent) : (x.significand + 1 / 2) * 2 ^ x.exponent * (1 + 1 / precision) ^ 2 <
      ((precision : ℚ) - 1) * 2 ^ greatestExponent := by
  have unit := two_zpow_pos x.exponent
  have positive : (0 : ℚ) ≤ x.significand + 1 / 2 := by positivity
  rcases below with below | below
  · have significand : (x.significand : ℚ) + 1 / 2 ≤ precision - 7 / 2 := by
      have : (x.significand : ℚ) + 4 ≤ precision := by exact_mod_cast below
      linarith
    refine with_errors_lt (c := precision - 7 / 2) ?_ (by norm_num [precision])
    exact mul_le_mul significand (two_zpow_le finite.exponent) unit.le (positive.trans significand)
  · have significand : (x.significand : ℚ) + 1 / 2 ≤ precision := by
      have : (x.significand : ℚ) + 1 ≤ precision := by exact_mod_cast finite.significand
      linarith
    have half : (2 : ℚ) ^ x.exponent ≤ 2 ^ greatestExponent / 2 := by
      rw [div_eq_mul_inv, ← zpow_sub_one₀ (by norm_num)]
      exact two_zpow_le (by omega)
    refine with_errors_lt (c := precision / 2) ?_ (by norm_num [precision])
    calc ((x.significand : ℚ) + 1 / 2) * 2 ^ x.exponent
        ≤ precision * (2 ^ greatestExponent / 2) :=
          mul_le_mul significand half unit.le (positive.trans significand)
      _ = (precision : ℚ) / 2 * 2 ^ greatestExponent := by ring

theorem le_greatestPower {k : Nat}
    (small : (10 : ℚ) ^ k < (precision - 1) * 2 ^ greatestExponent) : k ≤ greatestPower := by
  have less : (10 : ℚ) ^ k < (2 ^ 1024 : Nat) := by
    have top := two_zpow_pos greatestExponent
    have whole : ((2 ^ 1024 : Nat) : ℚ) = precision * 2 ^ greatestExponent := by
      rw [cast_precision, ← zpow_add₀ (by norm_num), Nat.cast_pow]
      exact (zpow_natCast (2 : ℚ) 1024).symm
    rw [whole]
    linarith
  have power : 10 ^ k < 2 ^ 1024 := by exact_mod_cast less
  by_contra above
  have more : 10 ^ (greatestPower + 1) ≤ 10 ^ k := Nat.pow_le_pow_right (by decide) (by omega)
  exact absurd (two_pow_1024_lt.trans_le more) power.not_gt

theorem ofDecimal_decimal_isSome (finite : x.Finite) (nonzero : x.isZero = false)
    (below : x.significand + 3 < precision ∨ x.exponent < greatestExponent) :
    (ofDecimal (decimal x).1 (decimal x).2).isSome = true := by
  obtain ⟨inside, few⟩ := decimal_spec nonzero
  have small : (decimal x).1 ≤ 2 ^ 64 := few.trans (by decide)
  by_cases zero : (decimal x).1 = 0
  · rw [decimal_eq_zero zero]
    decide
  by_cases down : (decimal x).2 < 0
  · exact ofDecimal_isSome_of_neg small down
  obtain ⟨k, eq⟩ := Int.eq_ofNat_of_zero_le (Int.not_lt.1 down)
  rw [eq, zpow_natCast] at inside
  have bound : (decimal x).1 * 10 ^ k * (1 + 1 / precision) ^ 2 <
      ((precision : ℚ) - 1) * 2 ^ greatestExponent :=
    (mul_le_mul_of_nonneg_right inside (by positivity)).trans_lt (scaled_lt finite below)
  have one : (1 : ℚ) ≤ (decimal x).1 := by exact_mod_cast Nat.pos_of_ne_zero zero
  have least : (10 : ℚ) ^ k ≤ (decimal x).1 * 10 ^ k * (1 + 1 / precision) ^ 2 := by
    have errors : (1 : ℚ) ≤ (1 + 1 / precision) ^ 2 := by norm_num [precision]
    calc (10 : ℚ) ^ k = 1 * 10 ^ k * 1 := by ring
      _ ≤ (decimal x).1 * 10 ^ k * (1 + 1 / precision) ^ 2 := by gcongr
  rw [eq]
  exact ofDecimal_isSome_of_nonneg small (le_greatestPower (least.trans_lt bound)) bound

theorem readable_real (finite : x.Finite) : Number.Readable (.real x) := by
  unfold Number.Readable Number.numeral
  cases nonzero : x.isZero with
  | true =>
    simp only [realNumeral, nonzero, if_true]
    cases x.negative <;> decide
  | false =>
    by_cases below : x.significand + 3 < precision ∨ x.exponent < greatestExponent
    · simp only [realNumeral, nonzero, Bool.false_eq_true, if_false]
      split
      · exact positional_value_isSome (decimal_spec nonzero).2 (by assumption : _ ∧ _).2
      · exact scientific_value_isSome (decimal_spec nonzero).2
          (ofDecimal_decimal_isSome finite nonzero below)
    · push Not at below
      have exponent : x.exponent = greatestExponent := le_antisymm finite.exponent below.2
      have top := readable_top x.negative (show precision - 3 ≤ x.significand by omega)
        finite.significand
      rwa [← exponent] at top

theorem Numeral.real_eq_some {n : Numeral} {s : Nat} {e : Int} {v : Number}
    (value : n.real s e = some v) : ∃ r : Binary64, r.Finite ∧ v = .real r := by
  obtain ⟨r, found, rfl⟩ := Option.map_eq_some_iff.1 value
  have finite := ofDecimal_finite found
  exact ⟨{ r with negative := n.negative }, ⟨finite.significand, finite.exponent⟩, rfl⟩

theorem Numeral.value_cases {n : Numeral} {v : Number} (value : n.value = some v) :
    v.IsInteger ∨ ∃ r : Binary64, r.Finite ∧ v = .real r := by
  have whole : ∀ m, Number.ofInt? m = some v → v.IsInteger := by
    intro m found
    unfold Number.ofInt? at found
    split at found <;> cases found
    trivial
  unfold Numeral.value at value
  split at value
  · split at value
    · split at value
      · exact .inr (real_eq_some value)
      · exact .inl (whole _ value)
    · exact .inl (whole _ value)
  · exact .inr (real_eq_some value)

theorem readable_of_value {n : Numeral} {v : Number} (value : n.value = some v) : v.Readable := by
  rcases Numeral.value_cases value with integer | ⟨r, finite, rfl⟩
  · rw [Number.Readable, Number.reprints_of_isInteger integer]
    rfl
  · exact readable_real finite

end

end ContractBuild.Json
