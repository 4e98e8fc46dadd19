import ContractBuild.Number
import Mathlib.Data.Nat.Digits.Lemmas

/-!
# Digits of a number

The digits of a number are digits and do not begin with a needless zero, and a number lies between
the powers of ten that belong to its length.
-/

namespace ContractBuild.Digits

variable {n : Nat} {c : Char} {text : List Char}

theorem isDigit_of_mem_digits (mem : c ∈ digits n) : c.isDigit :=
  Nat.isDigit_of_mem_toDigits (by decide) (by decide) mem

theorem head_digits_ne_zero (positive : n ≠ 0) (h : digits n ≠ []) : (digits n).head h ≠ '0' := by
  induction n using Nat.strongRecOn with
  | ind n ih =>
    by_cases small : n < 10
    · have one : digits n = [Nat.digitChar n] := Nat.toDigits_of_lt_base small
      simp only [one, List.head_cons]
      interval_cases n <;> first | exact absurd rfl positive | decide
    · have split : digits n = digits (n / 10) ++ [Nat.digitChar (n % 10)] :=
        Nat.toDigits_of_base_le (by decide) (Nat.le_of_not_lt small)
      have front : digits (n / 10) ≠ [] := digits_ne_nil _
      simp only [split, List.head_append_of_ne_nil front]
      exact ih (n / 10) (by omega) (by omega) front

theorem le_push (n : Nat) (c : Char) : n ≤ push n c := by
  unfold push
  omega

theorem le_foldl_push (n : Nat) (text : List Char) : n ≤ text.foldl push n := by
  induction text generalizing n with
  | nil => exact Nat.le_refl n
  | cons c text ih => exact Nat.le_trans (le_push n c) (ih (push n c))

theorem lt_pow_length (n : Nat) : n < 10 ^ (digits n).length :=
  (Nat.length_toDigits_le_iff (by decide) (List.length_pos_iff.2 (digits_ne_nil n))).1
    (Nat.le_refl _)

theorem pow_length_le (positive : n ≠ 0) : 10 ^ ((digits n).length - 1) ≤ n := by
  rcases Nat.eq_zero_or_pos ((digits n).length - 1) with one | more
  · rw [one]
    exact Nat.pos_of_ne_zero positive
  · by_contra less
    have short := (Nat.length_toDigits_le_iff (by decide) more).2 (Nat.not_le.1 less)
    simp only [digits] at more short
    omega

theorem value_lt (digit : c.isDigit = true) : value c < 10 := by
  simp only [Char.isDigit, Bool.and_eq_true, decide_eq_true_eq] at digit
  have upper : c.toNat ≤ '9'.toNat := digit.2
  have nine : '9'.toNat = '0'.toNat + 9 := rfl
  rw [value]
  omega

theorem foldl_push_lt (all : text.all Char.isDigit) (n : Nat) :
    text.foldl push n < (n + 1) * 10 ^ text.length := by
  induction text generalizing n with
  | nil => simp
  | cons c text ih =>
    simp only [List.all_cons, Bool.and_eq_true] at all
    have digit := value_lt all.1
    calc text.foldl push (push n c) < (push n c + 1) * 10 ^ text.length := ih all.2 _
      _ ≤ ((n + 1) * 10) * 10 ^ text.length := by
        refine Nat.mul_le_mul_right _ ?_
        rw [push]
        omega
      _ = (n + 1) * 10 ^ (c :: text).length := by
        rw [List.length_cons, Nat.pow_succ', Nat.mul_assoc]

theorem number_lt (all : text.all Char.isDigit) : number text < 10 ^ text.length := by
  simpa [number] using foldl_push_lt all 0

end ContractBuild.Digits
