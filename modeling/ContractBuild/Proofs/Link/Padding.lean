import ContractBuild.Artifact.Assembly
import Mathlib.Data.List.DropRight

/-!
# Libraries with one placeholder

A placeholder begins with the whole name of its library, so a name that leaves no room for padding
is alone with its placeholder. The padding character may also stand at the end of a name, and there
it cannot be told from the padding: short names have one placeholder if they differ in nothing else.
-/

namespace ContractBuild.Link

variable {a b : List Char}

def stem (library : List Char) : List Char := library.rdropWhile (· = '_')

theorem stem_append_replicate (library : List Char) (n : Nat) :
    stem (library ++ List.replicate n '_') = stem library := by
  induction n with
  | zero => rw [List.replicate_zero, List.append_nil]
  | succ n ih =>
    rw [List.replicate_succ', ← List.append_assoc, stem, List.rdropWhile_concat_pos _ _ _ (by decide)]
    exact ih

theorem exists_eq_stem_append (library : List Char) :
    ∃ n, library = stem library ++ List.replicate n '_' := by
  refine ⟨(library.rtakeWhile (· = '_')).length, ?_⟩
  have underscores : library.rtakeWhile (· = '_') =
      List.replicate (library.rtakeWhile (· = '_')).length '_' := by
    refine List.eq_replicate_iff.2 ⟨rfl, fun c mem => ?_⟩
    simpa using List.mem_rtakeWhile_imp mem
  rw [← underscores, stem, List.rdropWhile_append_rtakeWhile]

theorem prefix_placeholder (library : List Char) : ['_', '_'] ++ library <+: placeholder library :=
  List.prefix_append _ _

theorem length_placeholder (library : List Char) :
    (placeholder library).length = max addressLength (library.length + 2) := by
  simp only [placeholder, List.length_append, List.length_cons, List.length_replicate]
  omega

theorem placeholder_of_long (long : 38 < a.length) : placeholder a = ['_', '_'] ++ a := by
  have full : addressLength - ('_' :: '_' :: a).length = 0 := by
    simp only [List.length_cons, addressLength]
    omega
  rw [placeholder, full, List.replicate_zero, List.append_nil]
  rfl

theorem padded_eq (short : a.length ≤ 38) : a ++ List.replicate (38 - a.length) '_' =
    stem a ++ List.replicate (38 - (stem a).length) '_' := by
  obtain ⟨n, eq⟩ := exists_eq_stem_append a
  have length := congrArg List.length eq
  rw [List.length_append, List.length_replicate] at length
  have count : n + (38 - a.length) = 38 - (stem a).length := by omega
  calc a ++ List.replicate (38 - a.length) '_'
    _ = stem a ++ List.replicate n '_' ++ List.replicate (38 - a.length) '_' := by rw [← eq]
    _ = stem a ++ List.replicate (38 - (stem a).length) '_' := by
      rw [List.append_assoc, List.replicate_append_replicate, count]

theorem placeholder_of_short (short : a.length ≤ 38) : placeholder a =
    ['_', '_'] ++ (stem a ++ List.replicate (38 - (stem a).length) '_') := by
  have room : addressLength - ('_' :: '_' :: a).length = 38 - a.length := by
    simp only [List.length_cons, addressLength]
    omega
  rw [placeholder, room, ← padded_eq short]
  rfl

theorem stem_eq_of_placeholder (same : placeholder a = placeholder b) : stem a = stem b := by
  simp only [placeholder, List.cons_append, List.cons.injEq, true_and] at same
  rw [← stem_append_replicate a, same, stem_append_replicate]

/-- Two libraries have one placeholder if they are one library, or if their names fit into an
address and differ in underscores at the end alone. A placeholder is as long as an address if the
name fits, and otherwise two characters longer than the name. -/
theorem placeholder_eq_iff (a b : List Char) :
    (placeholder a = placeholder b ↔ a = b ∨ a.length ≤ 38 ∧ b.length ≤ 38 ∧ stem a = stem b) ∧
    ['_', '_'] ++ a <+: placeholder a ∧
    ((placeholder a).length = 40 ↔ a.length ≤ 38) ∧
    (38 < a.length → (placeholder a).length = a.length + 2) := by
  have lengthA := length_placeholder a
  have lengthB := length_placeholder b
  rw [addressLength] at lengthA lengthB
  refine ⟨⟨fun same => ?_, fun alike => ?_⟩, prefix_placeholder a, by omega, by omega⟩
  · have lengths := congrArg List.length same
    by_cases short : a.length ≤ 38
    · exact .inr ⟨short, by omega, stem_eq_of_placeholder same⟩
    · rw [placeholder_of_long (by omega), placeholder_of_long (by omega)] at same
      exact .inl (List.append_cancel_left same)
  · rcases alike with rfl | ⟨short, short', stems⟩
    · rfl
    · rw [placeholder_of_short short, placeholder_of_short short', stems]

example : placeholder "Lib".toList = placeholder "Lib__".toList := by decide

end ContractBuild.Link
