import ContractBuild.Proofs.Registry.CachePaths
import Mathlib.Data.List.TakeWhile

/-!
# Names of versions

A version is known by its text: the build parts stand behind the first plus, the pre-release behind
the first hyphen in front of it, and no identifier holds a dot. The text with `.download` behind it
is the text of a version too, unless the version is a release: an identifier more is what it says.
-/

namespace ContractBuild

namespace Identifier

variable {i : Identifier} {is js : List Identifier}

theorem chars_injective : Function.Injective Identifier.chars := by
  intro i j same
  cases i
  cases j
  cases same
  rfl

theorem dot_not_mem (i : Identifier) : '.' ∉ i.chars := by
  intro mem
  cases i.allowed '.' mem

theorem join_singleton (i : Identifier) : join [i] = i.chars := by simp [join]

theorem join_cons (i : Identifier) (some : is ≠ []) : join (i :: is) = i.chars ++ '.' :: join is := by
  cases is with
  | nil => exact absurd rfl some
  | cons j is => simp [join]

theorem join_concat (some : is ≠ []) (i : Identifier) :
    join (is ++ [i]) = join is ++ '.' :: i.chars := by
  induction is with
  | nil => exact absurd rfl some
  | cons j is ih =>
    cases is with
    | nil => simp [join]
    | cons k is =>
      rw [List.cons_append, join_cons j (by simp), ih (by simp), join_cons j (by simp),
        List.append_assoc, List.cons_append]

theorem split_join (some : is ≠ []) : Text.split '.' (join is) = is.map Identifier.chars := by
  induction is with
  | nil => exact absurd rfl some
  | cons i is ih =>
    cases is with
    | nil => rw [join_singleton, Text.split_of_not_mem i.dot_not_mem, List.map_singleton]
    | cons j is =>
      rw [join_cons i (by simp), Text.split_append, Text.split_of_not_mem i.dot_not_mem,
        ih (by simp), List.singleton_append, ← List.map_cons]

theorem join_injective (some : is ≠ []) (some' : js ≠ []) (same : join is = join js) : is = js := by
  have parts := congrArg (Text.split '.') same
  rw [split_join some, split_join some'] at parts
  exact List.map_injective_iff.2 chars_injective parts

theorem isIdentifierChar_or_dot_of_mem_join {c : Char} (mem : c ∈ join is) :
    isIdentifierChar c = true ∨ c = '.' := by
  induction is with
  | nil => cases mem
  | cons i is ih =>
    by_cases last : is = []
    · rw [last, join_singleton] at mem
      exact .inl (i.allowed c mem)
    · rw [join_cons i last, List.mem_append, List.mem_cons] at mem
      rcases mem with mem | rfl | mem
      · exact .inl (i.allowed c mem)
      · exact .inr rfl
      · exact ih mem

def download : Identifier where
  chars := ['d', 'o', 'w', 'n', 'l', 'o', 'a', 'd']
  nonempty := by decide
  allowed := List.all_eq_true.1 rfl

end Identifier

namespace Version

variable {v w : Version} {mark : Char} {is js : List Identifier} {s s' : List Char}

theorem marked_nil (mark : Char) : marked mark [] = [] := rfl

theorem marked_of_some (mark : Char) (some : is ≠ []) : marked mark is = mark :: Identifier.join is := by
  rw [marked, if_neg (by simpa using some)]

theorem marked_concat (mark : Char) (some : is ≠ []) (i : Identifier) :
    marked mark (is ++ [i]) = marked mark is ++ '.' :: i.chars := by
  rw [marked_of_some mark some, marked_of_some mark (by simp), Identifier.join_concat some,
    List.cons_append]

theorem marked_append_inj (free : mark ∉ s) (free' : mark ∉ s')
    (same : s ++ marked mark is = s' ++ marked mark js) : s = s' ∧ is = js := by
  have cut : ∀ {s : List Char} {is : List Identifier}, mark ∉ s →
      Text.splitOnce mark (s ++ marked mark is) =
        if is = [] then none else some (s, Identifier.join is) := by
    intro s is free
    by_cases none : is = []
    · rw [if_pos none, none, marked_nil, List.append_nil, Text.splitOnce_eq_none_iff]
      exact free
    · rw [if_neg none, marked_of_some mark none, Text.splitOnce_eq_some_iff]
      exact ⟨rfl, free⟩
  have cuts := congrArg (Text.splitOnce mark) same
  rw [cut free, cut free'] at cuts
  by_cases none : is = [] <;> by_cases none' : js = [] <;>
    simp only [none, none', if_true, if_false] at cuts
  · subst none none'
    exact ⟨List.append_cancel_right same, rfl⟩
  · cases cuts
  · cases cuts
  · rw [Option.some.injEq, Prod.mk.injEq] at cuts
    exact ⟨cuts.1, Identifier.join_injective none none' cuts.2⟩

theorem mem_marked {c : Char} (mem : c ∈ marked mark is) :
    c = mark ∨ isIdentifierChar c = true ∨ c = '.' := by
  by_cases none : is = []
  · rw [none] at mem
    cases mem
  · rw [marked_of_some mark none, List.mem_cons] at mem
    exact mem.imp_right Identifier.isIdentifierChar_or_dot_of_mem_join

theorem chars_eq (v : Version) : v.chars = number v.major ++ '.' :: (number v.minor ++ '.' ::
    (number v.patch ++ marked '-' v.pre ++ marked '+' v.build)) := by
  simp [chars]

theorem not_mem_number {c : Char} (other : c.isDigit = false) (n : UInt64) : c ∉ number n := by
  intro mem
  rw [isDigit_of_mem_number mem] at other
  cases other

theorem plus_not_mem (v : Version) : '+' ∉ number v.patch ++ marked '-' v.pre := by
  rw [List.mem_append, not_or]
  refine ⟨not_mem_number rfl _, fun mem => ?_⟩
  rcases mem_marked mem with eq | other | eq
  · cases eq
  · cases other
  · cases eq

theorem chars_injective : Function.Injective Version.chars := by
  intro v w same
  rw [chars_eq, chars_eq] at same
  obtain ⟨major, rest⟩ := number_append_inj same
  obtain ⟨minor, rest⟩ := number_append_inj rest
  obtain ⟨rest, build⟩ := marked_append_inj v.plus_not_mem w.plus_not_mem rest
  obtain ⟨patch, pre⟩ := marked_append_inj (not_mem_number rfl _) (not_mem_number rfl _) rest
  have patch := number_injective patch
  cases v
  cases w
  simp_all

theorem slash_not_mem (v : Version) : '/' ∉ v.chars := by
  have apart : ∀ {mark : Char} {is : List Identifier}, '/' ≠ mark → '/' ∉ marked mark is := by
    intro mark is ne mem
    rcases mem_marked mem with eq | other | eq
    · exact ne eq
    · cases other
    · cases eq
  simp only [chars_eq, List.mem_append, List.mem_cons, not_or]
  exact ⟨not_mem_number rfl _, by decide, not_mem_number rfl _, by decide,
    ⟨not_mem_number rfl _, apart (by decide)⟩, apart (by decide)⟩

def downloadMark : List Char := '.' :: Identifier.download.chars

/-- The version whose text is that of this one with the mark of a download behind it. -/
def stagingTwin? (v : Version) : Option Version :=
  if v.build ≠ [] then some { v with build := v.build ++ [.download] }
  else if v.pre ≠ [] then some { v with pre := v.pre ++ [.download] }
  else none

theorem dropWhile_isDigit_number {n : UInt64} (stop : ∀ c ∈ s.head?, c.isDigit = false) :
    (number n ++ s).dropWhile Char.isDigit = s := by
  rw [List.dropWhile_append_of_pos fun c mem => isDigit_of_mem_number mem]
  cases s with
  | nil => rfl
  | cons c s => rw [List.dropWhile_cons_of_neg (by simp [stop c rfl])]

theorem head?_marks {c : Char} (head : c ∈ (marked '-' is ++ marked '+' js).head?) :
    c = '-' ∨ c = '+' := by
  by_cases early : is = []
  · by_cases built : js = []
    · rw [early, built] at head
      cases head
    · rw [early, marked_nil, List.nil_append, marked_of_some '+' built] at head
      cases head
      exact .inr rfl
  · rw [marked_of_some '-' early, List.cons_append] at head
    cases head
    exact .inl rfl

theorem chars_of_stagingTwin? (twin : v.stagingTwin? = some w) : w.chars = v.chars ++ downloadMark := by
  rw [stagingTwin?] at twin
  split at twin
  · rename_i built
    cases twin
    rw [chars_eq, chars_eq, marked_concat '+' built, downloadMark]
    simp only [List.append_assoc, List.cons_append]
  · rename_i unbuilt
    split at twin
    · rename_i early
      cases twin
      rw [chars_eq, chars_eq, marked_concat '-' early, not_not.1 unbuilt, marked_nil, downloadMark]
      simp only [List.append_assoc, List.cons_append, List.append_nil]
    · cases twin

theorem chars_append_ne_of_isRelease (release : v.IsRelease) : v.chars ++ downloadMark ≠ w.chars := by
  intro same
  rw [chars_of_isRelease release, chars_eq] at same
  simp only [List.append_assoc, List.cons_append] at same
  obtain ⟨-, rest⟩ := number_append_inj same
  obtain ⟨-, rest⟩ := number_append_inj rest
  have behind := congrArg (List.dropWhile Char.isDigit) rest
  rw [dropWhile_isDigit_number (by simp [downloadMark]), dropWhile_isDigit_number fun c mem => by
    rcases head?_marks mem with rfl | rfl <;> rfl] at behind
  have dot : '.' ∈ (marked '-' w.pre ++ marked '+' w.build).head? := by
    rw [← behind, downloadMark, List.head?_cons, Option.mem_def]
  rcases head?_marks dot with eq | eq <;> cases eq

theorem chars_append_eq_iff : v.chars ++ downloadMark = w.chars ↔ v.stagingTwin? = some w := by
  constructor
  · intro same
    cases twin : v.stagingTwin? with
    | some u =>
      rw [← chars_of_stagingTwin? twin] at same
      rw [chars_injective same]
    | none =>
      have release : v.IsRelease := by
        rw [stagingTwin?] at twin
        split at twin
        · cases twin
        · split at twin
          · cases twin
          · exact ⟨not_not.1 ‹_›, not_not.1 ‹_›⟩
      exact absurd same (chars_append_ne_of_isRelease release)
  · exact fun twin => (chars_of_stagingTwin? twin).symm

end Version
end ContractBuild
