import ContractBuild.Json.Numeral
import ContractBuild.Json.Print
import ContractBuild.Proofs.Number.Digits
import Mathlib.Data.List.TakeWhile

/-!
# The spelling of numerals

A numeral has one canonical text: its sign, digits without a needless zero in front, a fraction, and
an exponent with its sign. The scanner takes this text back as the numeral it was written for,
whatever follows that cannot belong to a number.
-/

namespace ContractBuild.Json.Numeral

open Digits

def fractionChars : List Char → List Char
  | [] => []
  | ds => '.' :: ds

def exponentChars : Option Int → List Char
  | none => []
  | some e => 'e' :: (if e < 0 then '-' else '+') :: digits e.natAbs

def signChars (negative : Bool) : List Char := if negative then ['-'] else []

def chars (x : Numeral) : List Char :=
  signChars x.negative ++ (x.whole ++ (fractionChars x.fraction ++ exponentChars x.exponent))

structure WellSpelled (x : Numeral) : Prop where
  whole : x.whole = ['0'] ∨ (∃ h : x.whole ≠ [], x.whole.head h ≠ '0') ∧ x.whole.all Char.isDigit
  fraction : x.fraction.all Char.isDigit

/-- What may follow a numeral without being taken for a part of it. -/
def Follows (rest : List Char) : Prop :=
  ∀ c ∈ rest.head?, c.isDigit = false ∧ c ≠ '.' ∧ c ≠ 'e' ∧ c ≠ 'E'

section

variable {text rest : List Char}

theorem Follows.nil : Follows [] := nofun

theorem Follows.cons {c : Char} (h : c = ',' ∨ c = ']' ∨ c = '}') : Follows (c :: rest) := by
  rintro c' ⟨⟩
  rcases h with rfl | rfl | rfl <;> decide

theorem digitsOf_append (digits : text.all Char.isDigit)
    (stop : ∀ c ∈ rest.head?, c.isDigit = false) : digitsOf (text ++ rest) = (text, rest) := by
  have all : ∀ c ∈ text, c.isDigit = true := List.all_eq_true.1 digits
  have none : rest.takeWhile Char.isDigit = [] ∧ rest.dropWhile Char.isDigit = rest := by
    cases rest with
    | nil => exact ⟨rfl, rfl⟩
    | cons c rest =>
      have plain : ¬ c.isDigit = true := by
        rw [stop c rfl]
        decide
      exact ⟨List.takeWhile_cons_of_neg plain, List.dropWhile_cons_of_neg plain⟩
  rw [digitsOf, List.takeWhile_append_of_pos all, List.dropWhile_append_of_pos all, none.1, none.2,
    List.append_nil]

theorem someDigits_append (some : text ≠ []) (digits : text.all Char.isDigit)
    (stop : ∀ c ∈ rest.head?, c.isDigit = false) :
    someDigits (text ++ rest) = .ok (text, rest) := by
  obtain ⟨c, text, rfl⟩ := List.exists_cons_of_ne_nil some
  simp only [someDigits, digitsOf_append digits stop]

theorem scanWhole_append {x : Numeral} (spelled : x.WellSpelled)
    (stop : ∀ c ∈ rest.head?, c.isDigit = false) :
    scanWhole (x.whole ++ rest) = .ok (x.whole, rest) := by
  rcases spelled.whole with zero | ⟨⟨some, head⟩, digits⟩
  · have none : digitsOf ([] ++ rest) = ([], rest) := digitsOf_append rfl stop
    rw [List.nil_append] at none
    simp only [zero, List.singleton_append, scanWhole, none, List.isEmpty_nil, if_true]
  · have taken := someDigits_append some digits stop
    obtain ⟨c, text, eq⟩ := List.exists_cons_of_ne_nil some
    simp only [eq, List.head_cons] at head
    rw [eq] at taken ⊢
    rw [← taken, List.cons_append]
    unfold scanWhole
    split
    · rename_i same
      exact absurd (List.cons.inj same).1 head
    · rfl

theorem scanFraction_append (digits : text.all Char.isDigit) (follows : ∀ c ∈ rest.head?,
    c.isDigit = false ∧ c ≠ '.') :
    scanFraction (fractionChars text ++ rest) = .ok (text, rest) := by
  cases text with
  | nil =>
    unfold fractionChars scanFraction
    split
    · rename_i eq
      exact absurd rfl (follows '.' (by rw [List.nil_append] at eq; rw [eq]; rfl)).2
    · rfl
  | cons c text =>
    exact someDigits_append (List.cons_ne_nil c text) digits fun c mem => (follows c mem).1

theorem scanExponent_append (e : Option Int) (follows : Follows rest) :
    scanExponent (exponentChars e ++ rest) = .ok (e, rest) := by
  have stop : ∀ c ∈ rest.head?, c.isDigit = false := fun c mem => (follows c mem).1
  have all (n : Nat) : (digits n).all Char.isDigit :=
    List.all_eq_true.2 fun c mem => isDigit_of_mem_digits mem
  have taken (n : Nat) := someDigits_append (digits_ne_nil n) (all n) stop
  cases e with
  | none =>
    cases rest with
    | nil => rfl
    | cons c rest =>
      obtain ⟨-, -, small, capital⟩ := follows c rfl
      simp only [exponentChars, List.nil_append, scanExponent, small, capital, or_self, if_false]
  | some e =>
    by_cases negative : e < 0
    · have back : -((e.natAbs : Nat) : Int) = e := by omega
      simp only [exponentChars, negative, if_true, List.cons_append, scanExponent, true_or, taken,
        Except.map, number_digits, back]
    · have back : ((e.natAbs : Nat) : Int) = e := by omega
      simp only [exponentChars, negative, if_false, List.cons_append, scanExponent, true_or, if_true,
        taken, Except.map, number_digits, back]

theorem head_tail_not_digit (x : Numeral) (follows : Follows rest) :
    (∀ c ∈ (exponentChars x.exponent ++ rest).head?, c.isDigit = false ∧ c ≠ '.') ∧
    ∀ c ∈ (fractionChars x.fraction ++ (exponentChars x.exponent ++ rest)).head?,
      c.isDigit = false := by
  have exponent : ∀ c ∈ (exponentChars x.exponent ++ rest).head?, c.isDigit = false ∧ c ≠ '.' := by
    cases x.exponent with
    | none => exact fun c mem => ⟨(follows c mem).1, (follows c mem).2.1⟩
    | some e =>
      rintro c ⟨⟩
      decide
  refine ⟨exponent, ?_⟩
  cases x.fraction with
  | nil => exact fun c mem => (exponent c mem).1
  | cons d ds =>
    rintro c ⟨⟩
    decide

theorem scanUnsigned_append {x : Numeral} (spelled : x.WellSpelled) (follows : Follows rest) :
    scanUnsigned x.negative
      (x.whole ++ (fractionChars x.fraction ++ (exponentChars x.exponent ++ rest))) =
        .ok (x, rest) := by
  obtain ⟨behindFraction, behindWhole⟩ := head_tail_not_digit x follows
  simp only [scanUnsigned, scanWhole_append spelled behindWhole,
    scanFraction_append spelled.fraction behindFraction, scanExponent_append x.exponent follows,
    bind, Except.bind]
  rfl

theorem WellSpelled.exists_cons {x : Numeral} (spelled : x.WellSpelled) :
    ∃ c ds, x.whole = c :: ds ∧ c.isDigit = true := by
  rcases spelled.whole with zero | ⟨⟨some, -⟩, digits⟩
  · exact ⟨'0', [], zero, rfl⟩
  · obtain ⟨c, ds, eq⟩ := List.exists_cons_of_ne_nil some
    exact ⟨c, ds, eq, List.all_eq_true.1 digits c (by rw [eq]; exact List.mem_cons_self)⟩

theorem scan_chars_append {x : Numeral} (spelled : x.WellSpelled) (follows : Follows rest) :
    scan (x.chars ++ rest) = .ok (x, rest) := by
  have taken := scanUnsigned_append spelled follows
  simp only [chars, List.append_assoc]
  cases negative : x.negative with
  | true =>
    rw [negative] at taken
    simp only [signChars, if_true, List.singleton_append, scan, taken]
  | false =>
    rw [negative] at taken
    obtain ⟨c, ds, eq, digit⟩ := spelled.exists_cons
    have unsigned : c ≠ '-' := by
      rintro rfl
      exact absurd digit (by decide)
    rw [← taken, eq]
    simp only [signChars, Bool.false_eq_true, if_false, List.nil_append, List.cons_append]
    unfold scan
    split
    · rename_i same
      exact absurd (List.cons.inj same).1 unsigned
    · rfl

theorem chars_eq_cons {x : Numeral} (spelled : x.WellSpelled) :
    ∃ c text, x.chars = c :: text ∧ (c = '-' ∨ c.isDigit = true) := by
  cases negative : x.negative with
  | true =>
    refine ⟨'-', x.whole ++ (fractionChars x.fraction ++ exponentChars x.exponent), ?_, .inl rfl⟩
    simp only [chars, signChars, negative, if_true, List.singleton_append]
  | false =>
    obtain ⟨c, ds, eq, digit⟩ := spelled.exists_cons
    refine ⟨c, ds ++ (fractionChars x.fraction ++ exponentChars x.exponent), ?_, .inr digit⟩
    simp only [chars, signChars, negative, Bool.false_eq_true, if_false, List.nil_append, eq,
      List.cons_append]

end

end ContractBuild.Json.Numeral
