import ContractBuild.Files
import ContractBuild.Proofs.Outcome
import ContractBuild.Proofs.SortedMap

/-!
# What stands where

A path leads to one place, whatever stands there, as long as the directories on its way are there. A
file operation that goes well changes what stands at the places it names, and at no other place.
-/

namespace ContractBuild.FileTree

variable {files files' : FileTree} {place p q : Place} {name path : String} {names : List String}

theorem entry?_of_ne (root : place ≠ []) : files.entry? place = files.find? place := by
  unfold entry?
  rw [if_neg (by simpa using root)]

theorem entry?_insert (root : place ≠ []) (e : Entry) (q : Place) :
    entry? (SortedMap.insert files place e) q = if q = place then some e else files.entry? q := by
  by_cases same : q = place
  · subst same
    rw [if_pos rfl, entry?_of_ne root, SortedMap.find?_insert_self]
  · rw [if_neg same]
    by_cases above : q = []
    · subst above
      rfl
    · rw [entry?_of_ne above, entry?_of_ne above, SortedMap.find?_insert_ne _ same]

theorem entry?_erase (root : place ≠ []) (q : Place) :
    entry? (SortedMap.erase files place) q = if q = place then none else files.entry? q := by
  by_cases same : q = place
  · subst same
    rw [if_pos rfl, entry?_of_ne root, SortedMap.find?_erase_self]
  · rw [if_neg same]
    by_cases above : q = []
    · subst above
      rfl
    · rw [entry?_of_ne above, entry?_of_ne above, SortedMap.find?_erase_ne _ same]

def after (place : Place) (name : String) : Place :=
  if name = "" ∨ name = "." then place else if name = ".." then place.dropLast else place ++ [name]

def goal (names : List String) : Place := names.foldl after []

theorem goal_concat (names : List String) (name : String) :
    goal (names ++ [name]) = after (goal names) name := by
  rw [goal, List.foldl_append]
  rfl

theorem directory_eq_ok_iff :
    files.directory place = .ok p ↔ files.entry? place = some .directory ∧ p = place := by
  unfold directory
  split
  · rename_i directory
    rw [directory, Except.ok.injEq, eq_comm]
    exact (and_iff_right rfl).symm
  · rename_i content file
    rw [file]
    exact ⟨nofun, nofun⟩
  · rename_i nothing
    rw [nothing]
    exact ⟨nofun, nofun⟩

theorem follow_eq_ok_iff : files.follow place name = .ok p ↔
    files.entry? place = some .directory ∧ name.utf8ByteSize ≤ nameLimit ∧ p = after place name := by
  have named : (if name = "" ∨ name = "." then .ok place
      else if name = ".." then .ok place.dropLast
      else if nameLimit < name.utf8ByteSize then .error .nameTooLong
      else .ok (place ++ [name])) = (Except.ok p : Except FileFault Place) ↔
        name.utf8ByteSize ≤ nameLimit ∧ p = after place name := by
    unfold after
    split
    · rename_i here
      have fits : name.utf8ByteSize ≤ nameLimit := by rcases here with rfl | rfl <;> decide
      simp [fits, eq_comm]
    · split
      · rename_i up
        have fits : name.utf8ByteSize ≤ nameLimit := by subst up; decide
        simp [fits, eq_comm]
      · split
        · rename_i long
          simp [Nat.not_le.2 long]
        · rename_i fits
          simp [Nat.not_lt.1 fits, eq_comm]
  rw [follow, bind_eq_ok_iff]
  constructor
  · intro ⟨above, found, eq⟩
    obtain ⟨directory, rfl⟩ := directory_eq_ok_iff.1 found
    exact ⟨directory, named.1 eq⟩
  · intro ⟨directory, rest⟩
    exact ⟨place, directory_eq_ok_iff.2 ⟨directory, rfl⟩, named.2 rest⟩

theorem walk_concat (files : FileTree) (names : List String) (name : String) :
    files.walk (names ++ [name]) = files.walk names >>= (files.follow · name) := by
  rw [walk, List.foldlM_append]
  simp [walk]

theorem walk_eq_ok (walked : files.walk names = .ok p) : p = goal names := by
  induction names using List.reverseRecOn generalizing p with
  | nil =>
    cases walked
    rfl
  | append_singleton names name ih =>
    rw [walk_concat] at walked
    obtain ⟨above, walked, followed⟩ := bind_eq_ok_iff.1 walked
    rw [goal_concat, ← ih walked]
    exact (follow_eq_ok_iff.1 followed).2.2

def Keeps (files files' : FileTree) : Prop :=
  ∀ q, files.entry? q = some .directory → files'.entry? q = some .directory

theorem Keeps.walk (keeps : Keeps files files') (walked : files.walk names = .ok p) :
    files'.walk names = .ok p := by
  induction names using List.reverseRecOn generalizing p with
  | nil => exact walked
  | append_singleton names name ih =>
    rw [walk_concat] at walked ⊢
    obtain ⟨above, walked, followed⟩ := bind_eq_ok_iff.1 walked
    obtain ⟨directory, short, eq⟩ := follow_eq_ok_iff.1 followed
    apply bind_eq_ok_iff.2
    exact ⟨above, ih walked, follow_eq_ok_iff.2 ⟨keeps above directory, short, eq⟩⟩

theorem locate_eq_ok_iff : files.locate path = .ok p ↔
    path.isEmpty = false ∧ ∃ ns, FileTree.names path = .ok ns ∧ files.walk ns = .ok p := by
  unfold locate
  cases empty : path.isEmpty with
  | true => exact ⟨nofun, nofun⟩
  | false =>
    rw [if_neg Bool.false_ne_true, bind_eq_ok_iff]
    exact (and_iff_right rfl).symm

def at? (files : FileTree) (path : String) : Option Entry := (files.lookup path).toOption

theorem at?_eq_some_iff {e : Entry} : files.at? path = some e ↔
    ∃ place, files.locate path = .ok place ∧ files.entry? place = some e := by
  unfold at? lookup
  cases found : files.locate path with
  | error fault => exact ⟨nofun, nofun⟩
  | ok place =>
    simp only [Bind.bind, Except.bind]
    cases entry : files.entry? place with
    | none => simp [Except.toOption, entry]
    | some e' => simp [Except.toOption, entry]

theorem at?_of_locate (located : files.locate path = .ok place) :
    files.at? path = files.entry? place := by
  ext e
  rw [at?_eq_some_iff, located]
  simp

theorem holds_eq (files : FileTree) (path : String) :
    files.holds path = (files.at? path).isSome := by
  unfold holds at?
  cases files.lookup path <;> rfl

theorem holds_eq_false (free : files.at? path = none) : files.holds path = false := by
  rw [holds_eq, free, Option.isSome_none]

def Put (files files' : FileTree) (place : Place) (found : Option Entry) : Prop :=
  ∀ q, files'.entry? q = if q = place then found else files.entry? q

theorem Put.self {found : Option Entry} (put : Put files files' place found) :
    files'.entry? place = found := by
  rw [put place, if_pos rfl]

theorem Put.other {found : Option Entry} (put : Put files files' place found) (ne : q ≠ place) :
    files'.entry? q = files.entry? q := by
  rw [put q, if_neg ne]

theorem Put.keeps {found : Option Entry} (put : Put files files' place found)
    (free : files.entry? place ≠ some .directory) : Keeps files files' := by
  intro q directory
  rw [put.other]
  · exact directory
  · intro same
    subst same
    exact free directory

theorem Put.locate {found : Option Entry} (put : Put files files' place found)
    (free : files.entry? place ≠ some .directory) (located : files.locate path = .ok p) :
    files'.locate path = .ok p := by
  obtain ⟨nonempty, ns, split, walked⟩ := locate_eq_ok_iff.1 located
  exact locate_eq_ok_iff.2 ⟨nonempty, ns, split, (put.keeps free).walk walked⟩

theorem Put.at? {found : Option Entry} (put : Put files files' place found)
    (free : files.entry? place ≠ some .directory) (located : files.locate path = .ok place) :
    files'.at? path = found :=
  (at?_of_locate (put.locate free located)).trans put.self

theorem ne_nil_of_entry? (free : files.entry? place ≠ some .directory) : place ≠ [] := by
  intro root
  subst root
  exact free rfl

theorem ne_nil_of_file {content : Bytes} (file : files.entry? place = some (.file content)) :
    place ≠ [] := by
  have free : files.entry? place ≠ some .directory := by
    rw [file]
    exact nofun
  exact ne_nil_of_entry? free

theorem write_eq_ok {content : Bytes} (written : files.write path content = .ok files') :
    ∃ place, files.locate path = .ok place ∧ files.entry? place ≠ some .directory ∧
      Put files files' place (some (.file content)) := by
  obtain ⟨place, located, rest⟩ := bind_eq_ok_iff.1 written
  obtain ⟨parent, above, rest⟩ := bind_eq_ok_iff.1 rest
  obtain ⟨-, rfl⟩ := directory_eq_ok_iff.1 above
  refine ⟨place, located, ?_⟩
  split at rest
  · cases rest
  · rename_i free
    cases rest
    have root := ne_nil_of_entry? free
    rw [List.getLast?_eq_some_getLast root, Option.toList_some, List.dropLast_append_getLast root]
    exact ⟨free, entry?_insert root _⟩

theorem read_of_write {content : Bytes} (written : files.write path content = .ok files') :
    files'.read path = .ok content := by
  obtain ⟨place, located, free, put⟩ := write_eq_ok written
  have found : files'.lookup path = .ok (.file content) :=
    bind_eq_ok_iff.2 ⟨place, put.locate free located, by rw [put.self]⟩
  exact bind_eq_ok_iff.2 ⟨.file content, found, rfl⟩

theorem remove_eq_ok (removed : files.remove path = .ok files') :
    ∃ place content, files.locate path = .ok place ∧
      files.entry? place = some (.file content) ∧ Put files files' place none := by
  obtain ⟨place, located, rest⟩ := bind_eq_ok_iff.1 removed
  split at rest
  · rename_i content file
    cases rest
    exact ⟨place, content, located, file, entry?_erase (ne_nil_of_file file)⟩
  · cases rest
  · cases rest

theorem exists_remove {content : Bytes} (file : files.at? path = some (.file content)) :
    ∃ files', files.remove path = .ok files' := by
  obtain ⟨place, located, entry⟩ := at?_eq_some_iff.1 file
  refine ⟨SortedMap.erase files place, bind_eq_ok_iff.2 ⟨place, located, ?_⟩⟩
  rw [entry]

theorem rename_eq_ok {source target : String} {content : Bytes}
    (file : files.at? source = some (.file content))
    (renamed : files.rename source target = .ok files') :
    ∃ origin place, files.locate source = .ok origin ∧ files.locate target = .ok place ∧
      files.entry? place ≠ some .directory ∧ ∀ q, files'.entry? q =
        if q = place then some (.file content) else if q = origin then none
        else files.entry? q := by
  obtain ⟨origin, located, rest⟩ := bind_eq_ok_iff.1 renamed
  obtain ⟨place, located', rest⟩ := bind_eq_ok_iff.1 rest
  obtain ⟨_, -, rest⟩ := bind_eq_ok_iff.1 rest
  rw [at?_of_locate located] at file
  rw [file] at rest
  refine ⟨origin, place, located, located', ?_⟩
  cases target : files.entry? place with
  | none =>
    rw [target] at rest
    cases rest
    refine ⟨nofun, fun q => ?_⟩
    have root : place ≠ [] := ne_nil_of_entry? (by rw [target]; exact nofun)
    rw [entry?_insert root, entry?_erase (ne_nil_of_file file)]
  | some e =>
    rw [target] at rest
    cases e with
    | directory => cases rest
    | file replaced =>
      cases rest
      refine ⟨nofun, fun q => ?_⟩
      rw [entry?_insert (ne_nil_of_file target), entry?_erase (ne_nil_of_file file)]

end ContractBuild.FileTree
