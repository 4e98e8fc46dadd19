import ContractBuild.Proofs.Json.Numerals
import ContractBuild.Proofs.Number.Shortest

/-!
# Printed numbers

Every number is printed as the canonical text of some numeral. For whole numbers the value of this
numeral is the number again, and so it is for minus zero, which is kept as a real. Of other reals
only this much is needed here: they too are printed as numerals.
-/

namespace ContractBuild.Json

open Digits Shortest

def positionalNumeral (negative : Bool) (ds : List Char) (point : Int) : Numeral :=
  if ds.length ≤ point then ⟨negative, ds ++ zeros (point.toNat - ds.length), ['0'], none⟩
  else if 0 < point then ⟨negative, ds.take point.toNat, ds.drop point.toNat, none⟩
  else ⟨negative, ['0'], zeros (-point).toNat ++ ds, none⟩

def scientificNumeral (negative : Bool) (ds : List Char) (point : Int) : Numeral :=
  ⟨negative, ds.take 1, ds.drop 1, some (point - 1)⟩

def realNumeral (x : Binary64) : Numeral :=
  if x.isZero then ⟨x.negative, ['0'], ['0'], none⟩
  else
    let ds := digits (decimal x).1
    let point : Int := ds.length + (decimal x).2
    if realStyle.leastPositional ≤ point ∧ point ≤ realStyle.greatestPositional then
      positionalNumeral x.negative ds point
    else scientificNumeral x.negative ds point

def Number.numeral : Number → Numeral
  | .whole n _ _ => ⟨n < 0, digits n.natAbs, [], none⟩
  | .real x => realNumeral x

section

variable {n : Nat} {ds : List Char} {point : Int} {negative : Bool}

theorem all_isDigit_digits (n : Nat) : (digits n).all Char.isDigit :=
  List.all_eq_true.2 fun _ mem => isDigit_of_mem_digits mem

theorem all_isDigit_zeros (n : Nat) : (zeros n).all Char.isDigit := by
  rw [List.all_eq_true]
  intro c mem
  rw [List.eq_of_mem_replicate mem]
  decide

theorem digits_wellSpelled (n : Nat) :
    digits n = ['0'] ∨ (∃ h : digits n ≠ [], (digits n).head h ≠ '0') ∧
      (digits n).all Char.isDigit := by
  by_cases zero : n = 0
  · exact .inl (zero ▸ rfl)
  · exact .inr ⟨⟨digits_ne_nil n, head_digits_ne_zero zero _⟩, all_isDigit_digits n⟩

theorem positional_eq (some : ds ≠ []) : Numeral.signChars negative ++
    positional realStyle ds point = (positionalNumeral negative ds point).chars := by
  by_cases long : ds.length ≤ point
  · simp [positional, positionalNumeral, long, Numeral.chars, Numeral.fractionChars,
      Numeral.exponentChars, realStyle]
  · by_cases inside : 0 < point
    · have behind : ds.drop point.toNat ≠ [] := by
        rw [Ne, List.drop_eq_nil_iff]
        omega
      obtain ⟨d, later, eq⟩ := List.exists_cons_of_ne_nil behind
      simp [positional, positionalNumeral, long, inside, Numeral.chars, Numeral.fractionChars,
        Numeral.exponentChars, eq]
    · have behind : zeros (-point).toNat ++ ds ≠ [] := by simp [some]
      obtain ⟨d, later, eq⟩ := List.exists_cons_of_ne_nil behind
      simp [positional, positionalNumeral, long, inside, Numeral.chars, Numeral.fractionChars,
        Numeral.exponentChars, eq]

theorem scientific_eq (some : ds ≠ []) : Numeral.signChars negative ++
    scientific realStyle ds point = (scientificNumeral negative ds point).chars := by
  have sign : (if 0 ≤ point - 1 then realStyle.upward else realStyle.downward) =
      ['e', if point - 1 < 0 then '-' else '+'] := by
    split
    · rw [if_neg (by omega)]
      rfl
    · rw [if_pos (by omega)]
      rfl
  obtain ⟨d, later, rfl⟩ := List.exists_cons_of_ne_nil some
  simp only [scientific, sign, scientificNumeral]
  cases later <;> simp [Numeral.chars, Numeral.fractionChars, Numeral.exponentChars]

theorem positional_wellSpelled (nonzero : n ≠ 0) :
    (positionalNumeral negative (digits n) point).WellSpelled := by
  have some := digits_ne_nil n
  have all := all_isDigit_digits n
  unfold positionalNumeral
  split
  · refine ⟨.inr ⟨⟨by simp [some], ?_⟩, by simp [all, all_isDigit_zeros]⟩, rfl⟩
    simp only [List.head_append_of_ne_nil some]
    exact head_digits_ne_zero nonzero some
  · split
    · have front : (digits n).take point.toNat ≠ [] := by
        rw [Ne, List.take_eq_nil_iff]
        simp only [some, or_false]
        omega
      refine ⟨.inr ⟨⟨front, ?_⟩, ?_⟩, ?_⟩
      · rw [List.head_take]
        exact head_digits_ne_zero nonzero some
      · exact List.all_eq_true.2 fun c mem => isDigit_of_mem_digits (List.mem_of_mem_take mem)
      · exact List.all_eq_true.2 fun c mem => isDigit_of_mem_digits (List.mem_of_mem_drop mem)
    · exact ⟨.inl rfl, by simp [all, all_isDigit_zeros]⟩

theorem scientific_wellSpelled (nonzero : n ≠ 0) :
    (scientificNumeral negative (digits n) point).WellSpelled := by
  have some := digits_ne_nil n
  have front : (digits n).take 1 ≠ [] := by simp [some]
  refine ⟨.inr ⟨⟨front, ?_⟩, ?_⟩, ?_⟩
  · simp only [scientificNumeral, List.head_take]
    exact head_digits_ne_zero nonzero some
  · exact List.all_eq_true.2 fun c mem => isDigit_of_mem_digits (List.mem_of_mem_take mem)
  · exact List.all_eq_true.2 fun c mem => isDigit_of_mem_digits (List.mem_of_mem_drop mem)

theorem write_eq (x : Binary64) : write realStyle x = (realNumeral x).chars := by
  cases zero : x.isZero with
  | true => simp [write, realNumeral, zero, Numeral.chars, Numeral.signChars,
      Numeral.fractionChars, Numeral.exponentChars, realStyle]
  | false =>
    have sign : (if x.negative then ['-'] else []) = Numeral.signChars x.negative := rfl
    simp only [write, realNumeral, zero, Bool.false_eq_true, if_false, sign]
    split
    · exact positional_eq (digits_ne_nil _)
    · exact scientific_eq (digits_ne_nil _)

theorem realNumeral_wellSpelled (x : Binary64) : (realNumeral x).WellSpelled := by
  unfold realNumeral
  split
  · exact ⟨.inl rfl, rfl⟩
  · dsimp only
    by_cases zero : (decimal x).1 = 0
    · rw [decimal_eq_zero zero]
      exact ⟨.inl rfl, rfl⟩
    · split
      · exact positional_wellSpelled zero
      · exact scientific_wellSpelled zero

end

namespace Number

theorem chars_eq (n : Number) : n.chars = n.numeral.chars := by
  cases n with
  | whole n least below =>
    by_cases negative : n < 0 <;>
      simp [chars, numeral, Numeral.chars, Numeral.signChars, Numeral.fractionChars,
        Numeral.exponentChars, negative]
  | real x => exact write_eq x

theorem numeral_wellSpelled (n : Number) : n.numeral.WellSpelled := by
  cases n with
  | whole n least below => exact ⟨digits_wellSpelled n.natAbs, rfl⟩
  | real x => exact realNumeral_wellSpelled x

def Reprints (n : Number) : Prop := n.numeral.value = some n

def IsInteger : Number → Prop
  | .whole .. => True
  | .real x => x = ⟨true, 0, 0⟩

instance : DecidablePred IsInteger := fun n => match n with
  | .whole .. => isTrue trivial
  | .real x => inferInstanceAs (Decidable (x = ⟨true, 0, 0⟩))

theorem absorb_of_lt {n : Nat} {text : List Char} (fits : text.foldl push n < UInt64.size) :
    Numeral.absorb n text = (text.foldl push n, []) := by
  induction text generalizing n with
  | nil => rfl
  | cons c text ih =>
    have first : push n c < UInt64.size := Nat.lt_of_le_of_lt (le_foldl_push _ text) fits
    rw [Numeral.absorb, if_pos first, ih fits, List.foldl_cons]

theorem absorb_digits {n : Nat} (fits : n < UInt64.size) :
    Numeral.absorb 0 (digits n) = (n, []) := by
  have same : (digits n).foldl push 0 = n := number_digits n
  rw [absorb_of_lt (same.symm ▸ fits), same]

theorem reprints_of_isInteger {n : Number} (integer : n.IsInteger) : n.Reprints := by
  cases n with
  | real x =>
    obtain rfl : x = ⟨true, 0, 0⟩ := integer
    rfl
  | whole n least below =>
    have fits : n.natAbs < UInt64.size := by
      rw [UInt64.size]
      omega
    simp only [Reprints, numeral, Numeral.value, absorb_digits fits, decide_eq_true_eq]
    split
    · have back : -((n.natAbs : Nat) : Int) = n := by omega
      rw [if_neg (by omega), back, ofInt?, dif_pos ⟨least, below⟩]
    · have back : ((n.natAbs : Nat) : Int) = n := by omega
      rw [back, ofInt?, dif_pos ⟨least, below⟩]

end Number
end ContractBuild.Json
