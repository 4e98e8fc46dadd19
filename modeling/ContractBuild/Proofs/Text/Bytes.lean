import ContractBuild.Text.Split

/-!
Lengths of texts in bytes, and cutting a text at a byte. A cut falls into the first or the
second part of a text, and then depends on that part only.
-/

namespace ContractBuild.Text

theorem utf8Length_append (a b : List Char) :
    utf8Length (a ++ b) = utf8Length a + utf8Length b := by
  induction a with
  | nil => simp [utf8Length]
  | cons c a ih =>
    simp only [List.cons_append, utf8Length, ih]
    omega

theorem length_le_utf8Length (s : List Char) : s.length ≤ utf8Length s := by
  induction s with
  | nil => exact Nat.le_refl 0
  | cons c s ih =>
    have := c.utf8Size_pos
    simp only [List.length_cons, utf8Length]
    omega

theorem utf8Size_eq_one {c : Char} (ascii : c.toNat < 128) : c.utf8Size = 1 := by
  rw [Char.utf8Size_eq_one_iff]
  exact Nat.le_of_lt_succ ascii

theorem utf8Length_eq_length {s : List Char} (ascii : ∀ c ∈ s, c.toNat < 128) :
    utf8Length s = s.length := by
  induction s with
  | nil => rfl
  | cons c s ih =>
    have rest := ih fun d mem => ascii d (List.mem_cons_of_mem c mem)
    have one := utf8Size_eq_one (ascii c List.mem_cons_self)
    simp only [utf8Length, List.length_cons, rest, one]
    omega

theorem splitBytes_append_le {n : Nat} {a : List Char} (inside : n ≤ utf8Length a)
    (b : List Char) :
    splitBytes n (a ++ b) = (splitBytes n a).map fun parts => (parts.1, parts.2 ++ b) := by
  induction a generalizing n with
  | nil =>
    obtain rfl : n = 0 := Nat.le_zero.1 inside
    simp [splitBytes]
  | cons c a ih =>
    cases n with
    | zero => simp [splitBytes]
    | succ n =>
      simp only [utf8Length] at inside
      simp only [List.cons_append, splitBytes]
      split
      · rw [ih (by omega)]
        cases splitBytes (n + 1 - c.utf8Size) a <;> rfl
      · rfl

theorem splitBytes_append_ge {n : Nat} {a : List Char} (behind : utf8Length a ≤ n)
    (b : List Char) :
    splitBytes n (a ++ b) =
      (splitBytes (n - utf8Length a) b).map fun parts => (a ++ parts.1, parts.2) := by
  induction a generalizing n with
  | nil =>
    simp only [List.nil_append, utf8Length, Nat.sub_zero]
    cases splitBytes n b <;> rfl
  | cons c a ih =>
    have pos := c.utf8Size_pos
    simp only [utf8Length] at behind
    obtain ⟨m, rfl⟩ : ∃ m, n = m + 1 := ⟨n - 1, by omega⟩
    simp only [List.cons_append, splitBytes, utf8Length]
    rw [if_pos (by omega), ih (by omega), Nat.sub_sub]
    cases splitBytes (m + 1 - (c.utf8Size + utf8Length a)) b <;> rfl

theorem splitBytes_zero (s : List Char) : splitBytes 0 s = some ([], s) := by
  cases s <;> rfl

theorem splitBytes_append (a b : List Char) : splitBytes (utf8Length a) (a ++ b) = some (a, b) := by
  rw [splitBytes_append_ge (Nat.le_refl _), Nat.sub_self, splitBytes_zero]
  simp

theorem splitBytes_eq_some {n : Nat} {s before after : List Char}
    (h : splitBytes n s = some (before, after)) : s = before ++ after ∧ utf8Length before = n := by
  induction s generalizing n before with
  | nil =>
    cases n with
    | zero =>
      cases h
      exact ⟨rfl, rfl⟩
    | succ n => cases h
  | cons c s ih =>
    cases n with
    | zero =>
      cases h
      exact ⟨rfl, rfl⟩
    | succ n =>
      simp only [splitBytes] at h
      split at h
      · obtain ⟨⟨x, y⟩, found, eq⟩ := Option.map_eq_some_iff.1 h
        cases eq
        obtain ⟨rfl, length⟩ := ih found
        refine ⟨rfl, ?_⟩
        simp only [utf8Length, length]
        omega
      · cases h

end ContractBuild.Text
