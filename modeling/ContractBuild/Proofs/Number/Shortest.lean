import ContractBuild.Number

/-!
# The shortest decimal of a number that is not zero

Zero does not lie in the interval of the reals that round to another number, so it is not found
there.
-/

namespace ContractBuild.Shortest

variable {i : Interval} {n : Nat} {p : Int}

theorem Interval.holds_zero (positive : 0 < i.low) (p : Int) : i.holds 0 p = false := by
  have below : 0 < i.low * (point 0 p).2 := by
    unfold point
    split
    · simpa using positive
    · exact Nat.mul_pos positive (Nat.pow_pos (by decide))
  have here : (point 0 p).1 = 0 := by
    unfold point
    split
    · exact Nat.zero_mul _
    · rfl
  simp only [Interval.holds, here, Nat.zero_mul]
  split
  · simp only [Bool.and_eq_false_iff, decide_eq_false_iff_not]
    exact .inl (by omega)
  · simp

theorem Interval.nearer_eq (i : Interval) (n : Nat) (p : Int) :
    i.nearer n p = n ∨ i.nearer n p = n + 1 := by
  unfold Interval.nearer
  dsimp only
  split
  · exact .inl rfl
  · exact .inr rfl
  · split
    · exact .inl rfl
    · exact .inr rfl

theorem Interval.onGrid_ne_zero (positive : 0 < i.low) (found : i.onGrid p = some n) : n ≠ 0 := by
  simp only [Interval.onGrid] at found
  have floor : i.holds (i.floor p) p = true → i.floor p ≠ 0 := by
    intro holds zero
    rw [zero, Interval.holds_zero positive] at holds
    cases holds
  split at found
  · rename_i here _
    cases found
    rcases i.nearer_eq (i.floor p) p with eq | eq <;> rw [eq]
    · exact floor here
    · exact Nat.succ_ne_zero _
  · rename_i here _
    cases found
    exact floor here
  · cases found
    omega
  · cases found

theorem Interval.search_eq_zero (positive : 0 < i.low) (top : Int) (digits tries : Nat) :
    (i.search top digits tries).1 = 0 → i.search top digits tries = (0, 0) := by
  induction tries generalizing digits with
  | zero => exact fun _ => rfl
  | succ tries ih =>
    unfold Interval.search
    split
    · rename_i n found
      split
      · exact fun zero => absurd zero Nat.one_ne_zero
      · exact fun zero => absurd zero (Interval.onGrid_ne_zero positive found)
    · exact ih (digits + 1)

section

variable {x : Binary64}

theorem significand_pos (nonzero : x.isZero = false) : 0 < x.significand := by
  rw [Binary64.isZero, beq_eq_false_iff_ne] at nonzero
  exact Nat.pos_of_ne_zero nonzero

theorem unit_pos (e : Int) : 0 < (Binary64.ratio ⟨false, 1, e⟩).1 := by
  unfold Binary64.ratio
  split
  · exact Nat.mul_pos Nat.one_pos (Nat.pow_pos (by decide))
  · exact Nat.one_pos

theorem interval_low_pos (nonzero : x.isZero = false) : 0 < (interval x).low := by
  have significand := significand_pos nonzero
  refine Nat.mul_pos ?_ (unit_pos x.exponent)
  split <;> omega

theorem interval_value_pos (nonzero : x.isZero = false) : 0 < (interval x).value :=
  Nat.mul_pos (Nat.mul_pos (by decide) (significand_pos nonzero)) (unit_pos x.exponent)

theorem decimal_eq_zero (zero : (decimal x).1 = 0) : decimal x = (0, 0) := by
  unfold decimal at zero ⊢
  cases nonzero : x.isZero with
  | true => rfl
  | false =>
    rw [nonzero] at zero
    exact Interval.search_eq_zero (interval_low_pos nonzero) _ _ _ zero

end

end ContractBuild.Shortest
