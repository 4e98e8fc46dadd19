import ContractBuild.Sources.Canonical
import Mathlib.Data.List.Basic

/-!
# Paths with one canonical name

The canonical name of a path has slashes only, and a drive as its first directory. Two paths get one
name if they differ in the kind of their slashes, or if one of them spells the drive of the other as
a directory. A name is its own canonical name, unless it comes from a drive that is a colon.
-/

namespace ContractBuild

variable {path s t : List Char}

theorem slashes_of_not_mem (free : '\\' ∉ path) : slashes path = path := by
  induction path with
  | nil => rfl
  | cons c path ih =>
    rw [List.mem_cons, not_or] at free
    rw [slashes, List.map_cons, if_neg (Ne.symm free.1)]
    exact congrArg (c :: ·) (ih free.2)

theorem not_mem_slashes (path : List Char) : '\\' ∉ slashes path := by
  intro mem
  obtain ⟨c, -, eq⟩ := List.mem_map.1 mem
  by_cases back : c = '\\' <;> simp [back] at eq

/-- The second character is a colon. -/
def OnDrive (s : List Char) : Prop := ∃ drive rest, s = drive :: ':' :: rest

theorem unixPath_of_not_onDrive (off : ¬ OnDrive s) : unixPath s = s := by
  unfold unixPath
  split
  · exact absurd ⟨_, _, rfl⟩ off
  · rfl

/-- Of the colons of a path on a drive the first is left out. -/
theorem unixPath_eq_erase (s : List Char) :
    unixPath s = if s[1]? = some ':' then '/' :: s.erase ':' else s := by
  match s with
  | [] | [_] => rfl
  | drive :: c :: rest =>
    by_cases colon : c = ':'
    · subst colon
      by_cases double : drive = ':'
      · subst double
        simp [unixPath]
      · simp [unixPath, double]
    · have apart : ¬ OnDrive (drive :: c :: rest) := by
        intro ⟨drive', rest', eq⟩
        cases eq
        exact colon rfl
      simp [unixPath_of_not_onDrive apart, colon]

/-- The first path is on a drive, and the second has the drive as its first directory. -/
def NamesDrive (s t : List Char) : Prop :=
  ∃ drive rest, s = drive :: ':' :: rest ∧ ¬ OnDrive t ∧ t = '/' :: drive :: rest

theorem unixPath_eq_iff : unixPath s = unixPath t ↔ s = t ∨ NamesDrive s t ∨ NamesDrive t s := by
  constructor
  · intro same
    by_cases first : OnDrive s <;> by_cases second : OnDrive t
    · obtain ⟨drive, rest, rfl⟩ := first
      obtain ⟨drive', rest', rfl⟩ := second
      cases same
      exact .inl rfl
    · obtain ⟨drive, rest, rfl⟩ := first
      rw [unixPath_of_not_onDrive second] at same
      exact .inr (.inl ⟨drive, rest, rfl, second, same.symm⟩)
    · obtain ⟨drive, rest, rfl⟩ := second
      rw [unixPath_of_not_onDrive first] at same
      exact .inr (.inr ⟨drive, rest, rfl, first, same⟩)
    · rw [unixPath_of_not_onDrive first, unixPath_of_not_onDrive second] at same
      exact .inl same
  · intro meet
    rcases meet with rfl | ⟨drive, rest, rfl, apart, rfl⟩ | ⟨drive, rest, rfl, apart, rfl⟩
    · rfl
    · exact (unixPath_of_not_onDrive apart).symm
    · exact unixPath_of_not_onDrive apart

theorem not_mem_unixPath (free : '\\' ∉ s) : '\\' ∉ unixPath s := by
  by_cases drive : OnDrive s
  · obtain ⟨drive, rest, rfl⟩ := drive
    simp only [List.mem_cons, not_or] at free
    simp [unixPath, free]
  · rwa [unixPath_of_not_onDrive drive]

theorem unixPath_unixPath_iff : unixPath (unixPath s) = unixPath s ↔ ¬ [':', ':'] <+: s := by
  by_cases drive : OnDrive s
  · obtain ⟨drive, rest, rfl⟩ := drive
    change unixPath ('/' :: drive :: rest) = '/' :: drive :: rest ↔ _
    by_cases colon : drive = ':'
    · subst colon
      simp [unixPath]
    · have apart : ¬ OnDrive ('/' :: drive :: rest) := by
        intro ⟨drive', rest', eq⟩
        cases eq
        exact colon rfl
      simp [unixPath_of_not_onDrive apart, Ne.symm colon]
  · have clear : ¬ [':', ':'] <+: s := by
      intro ⟨rest, eq⟩
      exact drive ⟨':', rest, eq.symm⟩
    rw [unixPath_of_not_onDrive drive, unixPath_of_not_onDrive drive]
    exact iff_of_true rfl clear

theorem colons_prefix_slashes_iff : [':', ':'] <+: slashes s ↔ [':', ':'] <+: s := by
  have colon (c : Char) : ':' = (if c = '\\' then '/' else c) ↔ ':' = c := by
    by_cases back : c = '\\' <;> simp [back]
  match s with
  | [] | [_] => simp [slashes]
  | a :: b :: rest => simp [slashes, colon]

theorem toList_canonicalize (path : String) :
    (canonicalize path).toList = unixPath (slashes path.toList) := String.toList_ofList

/-- Two paths become one source exactly if they differ in the kind of their slashes, or one names
the drive of the other as its first directory. A canonical name has no backslash, and is kept if it
is made canonical again, unless its path begins with two colons. -/
theorem canonicalize_meets_iff (p q : String) :
    '\\' ∉ (canonicalize p).toList ∧
    (canonicalize p = canonicalize q ↔ slashes p.toList = slashes q.toList ∨
      NamesDrive (slashes p.toList) (slashes q.toList) ∨
      NamesDrive (slashes q.toList) (slashes p.toList)) ∧
    (canonicalize (canonicalize p) = canonicalize p ↔ ¬ [':', ':'] <+: p.toList) := by
  have free : '\\' ∉ unixPath (slashes p.toList) := not_mem_unixPath (not_mem_slashes p.toList)
  refine ⟨?_, ?_, ?_⟩
  · rwa [toList_canonicalize]
  · rw [← String.toList_inj, toList_canonicalize, toList_canonicalize]
    exact unixPath_eq_iff
  · rw [← String.toList_inj, toList_canonicalize, toList_canonicalize, slashes_of_not_mem free,
      unixPath_unixPath_iff, colons_prefix_slashes_iff]

example : canonicalize "\\:x" = canonicalize "//x" := by decide +kernel

end ContractBuild
