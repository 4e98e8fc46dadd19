import ContractBuild.Proofs.Files.Places
import Mathlib.Data.List.Induction

/-!
# Making directories

Making a directory with all above it adds directories and nothing else. It goes well exactly if the
directory is there afterwards, and it changes nothing if it was there before.
-/

namespace ContractBuild.FileTree

variable {files files' files'' : FileTree} {place p q : Place} {name path : String}
  {names above : List String}

theorem isDirectory_iff : files.isDirectory names = true ↔
    files.walk names = .ok (goal names) ∧ files.entry? (goal names) = some .directory := by
  unfold isDirectory
  cases walked : files.walk names with
  | error fault => exact ⟨nofun, nofun⟩
  | ok place =>
    rw [walk_eq_ok walked]
    simp

theorem isDirectory_concat_iff : files.isDirectory (names ++ [name]) = true ↔
    files.isDirectory names = true ∧ name.utf8ByteSize ≤ nameLimit ∧
      files.entry? (after (goal names) name) = some .directory := by
  rw [isDirectory_iff, isDirectory_iff, walk_concat, goal_concat]
  constructor
  · intro ⟨walked, directory⟩
    obtain ⟨above, walked, followed⟩ := bind_eq_ok_iff.1 walked
    obtain ⟨aboveDirectory, short, -⟩ := follow_eq_ok_iff.1 followed
    have eq := walk_eq_ok walked
    subst eq
    exact ⟨⟨walked, aboveDirectory⟩, short, directory⟩
  · intro ⟨⟨walked, aboveDirectory⟩, short, directory⟩
    refine ⟨bind_eq_ok_iff.2 ⟨goal names, walked, ?_⟩, directory⟩
    exact follow_eq_ok_iff.2 ⟨aboveDirectory, short, rfl⟩

theorem isDirectory_concat_empty :
    files.isDirectory (names ++ [""]) = files.isDirectory names := by
  rw [Bool.eq_iff_iff, isDirectory_concat_iff]
  constructor
  · exact And.left
  · intro directory
    exact ⟨directory, by decide, (isDirectory_iff.1 directory).2⟩

theorem isDirectory_of_prefix (part : above <+: names) (directory : files.isDirectory names = true) :
    files.isDirectory above = true := by
  obtain ⟨rest, rfl⟩ := part
  induction rest using List.reverseRecOn with
  | nil => rwa [List.append_nil] at directory
  | append_singleton rest name ih =>
    rw [← List.append_assoc] at directory
    exact ih (isDirectory_concat_iff.1 directory).1

theorem Keeps.isDirectory (keeps : Keeps files files') (directory : files.isDirectory names = true) :
    files'.isDirectory names = true := by
  obtain ⟨walked, entry⟩ := isDirectory_iff.1 directory
  exact isDirectory_iff.2 ⟨keeps.walk walked, keeps _ entry⟩

theorem isDirectory_strip : files.isDirectory (names.reverse.dropWhile (· = "")).reverse =
    files.isDirectory names := by
  induction names using List.reverseRecOn with
  | nil => rfl
  | append_singleton names name ih =>
    rw [List.reverse_append, List.reverse_singleton, List.singleton_append]
    by_cases empty : name = ""
    · subst empty
      rw [List.dropWhile_cons_of_pos (by simp), ih, isDirectory_concat_empty]
    · rw [List.dropWhile_cons_of_neg (by simpa using empty), List.reverse_cons,
        List.reverse_reverse]

def Grown (files files' : FileTree) : Prop :=
  ∀ q, files'.entry? q = files.entry? q ∨
    files.entry? q = none ∧ files'.entry? q = some .directory

theorem Grown.refl (files : FileTree) : Grown files files := fun _ => .inl rfl

theorem Grown.trans (first : Grown files files') (second : Grown files' files'') :
    Grown files files'' := by
  intro q
  rcases second q with same | ⟨lacked, made⟩
  · rw [same]
    exact first q
  · rcases first q with same' | ⟨-, made'⟩
    · rw [same'] at lacked
      exact .inr ⟨lacked, made⟩
    · rw [lacked] at made'
      cases made'

theorem Grown.keeps (grown : Grown files files') : Keeps files files' := by
  intro q directory
  rcases grown q with same | ⟨lacked, -⟩
  · rw [same, directory]
  · rw [lacked] at directory
    cases directory

theorem Grown.file_iff {content : Bytes} (grown : Grown files files') :
    files'.entry? q = some (.file content) ↔ files.entry? q = some (.file content) := by
  rcases grown q with same | ⟨lacked, made⟩
  · rw [same]
  · rw [lacked, made]
    exact ⟨nofun, nofun⟩

theorem createDirectory_eq_ok (created : files.createDirectory names = .ok files') :
    Grown files files' ∧ files'.isDirectory names = true := by
  unfold createDirectory at created
  split at created
  · cases created
  · rename_i last above stripped
    obtain ⟨parent, walked, rest⟩ := bind_eq_ok_iff.1 created
    obtain ⟨place, followed, rest⟩ := bind_eq_ok_iff.1 rest
    split at rest
    · cases rest
    rename_i fresh
    cases rest
    obtain ⟨directory, short, eq⟩ := follow_eq_ok_iff.1 followed
    obtain ⟨-, -, lacked⟩ : last ≠ "." ∧ last ≠ ".." ∧ files.entry? place = none := by
      simpa using fresh
    have free : files.entry? place ≠ some .directory := by simp [lacked]
    have root : place ≠ [] := ne_nil_of_entry? free
    have put := @entry?_insert files place root .directory
    have grown : Grown files (SortedMap.insert files place .directory) := by
      intro q
      rw [put q]
      by_cases same : q = place
      · rw [if_pos same, same]
        exact .inr ⟨lacked, rfl⟩
      · exact .inl (if_neg same)
    refine ⟨grown, ?_⟩
    rw [← isDirectory_strip, stripped, List.reverse_cons, isDirectory_concat_iff, isDirectory_iff]
    have parentGoal := walk_eq_ok walked
    subst parentGoal
    refine ⟨⟨grown.keeps.walk walked, grown.keeps _ directory⟩, short, ?_⟩
    rw [← eq, put, if_pos rfl]

theorem createDirectory_of_isDirectory (directory : files.isDirectory names = true) :
    files.createDirectory names = .error .alreadyExists := by
  rw [← isDirectory_strip] at directory
  unfold createDirectory
  split
  · rfl
  · rename_i last above stripped
    rw [stripped, List.reverse_cons, isDirectory_concat_iff] at directory
    obtain ⟨aboveDirectory, short, entry⟩ := directory
    obtain ⟨walked, aboveEntry⟩ := isDirectory_iff.1 aboveDirectory
    have followed := follow_eq_ok_iff.2 ⟨aboveEntry, short, rfl⟩
    simp [walked, followed, entry, bind, Except.bind]

theorem ensureDirectory_spec {outcome : Except FileFault Unit}
    (ensured : files.ensureDirectory names = (outcome, files')) : Grown files files' ∧
      (outcome = .ok () ↔ files'.isDirectory names = true) := by
  unfold ensureDirectory at ensured
  split at ensured
  · rename_i made created
    cases ensured
    obtain ⟨grown, directory⟩ := createDirectory_eq_ok created
    exact ⟨grown, fun _ => directory, fun _ => rfl⟩
  · cases ensured
    refine ⟨.refl files, ?_⟩
    split
    · exact ⟨fun _ => ‹_›, fun _ => rfl⟩
    · rename_i lacking
      exact ⟨nofun, fun directory => absurd directory lacking⟩

theorem ensureAll_spec {dirs : List (List String)} {outcome : Except FileFault Unit}
    (nested : dirs.Pairwise fun inner outer => outer <+: inner)
    (ensured : files.ensureAll dirs = (outcome, files')) : Grown files files' ∧
      ∀ names ∈ dirs.head?, outcome = .ok () ↔ files'.isDirectory names = true := by
  induction dirs generalizing files files' outcome with
  | nil =>
    cases ensured
    exact ⟨.refl files, nofun⟩
  | cons names above ih =>
    obtain ⟨inside, nested⟩ := List.pairwise_cons.1 nested
    simp only [List.head?_cons, Option.mem_def, Option.some.injEq, forall_eq']
    unfold ensureAll at ensured
    split at ensured
    · rename_i missing
      split at ensured
      · rename_i made madeAbove
        obtain ⟨grown, ends⟩ := ensureDirectory_spec ensured
        exact ⟨(ih nested madeAbove).1.trans grown, ends⟩
      · rename_i fault made failedAbove
        cases ensured
        obtain ⟨grown, ends⟩ := ih nested failedAbove
        refine ⟨grown, nofun, fun directory => ?_⟩
        cases above with
        | nil =>
          cases failedAbove
          rw [createDirectory_of_isDirectory directory] at missing
          cases missing
        | cons outer above =>
          have outside := isDirectory_of_prefix (inside outer List.mem_cons_self) directory
          cases (ends outer rfl).2 outside
    · exact ensureDirectory_spec ensured

theorem pairwise_starts (names : List String) :
    (starts names).Pairwise fun inner outer => outer <+: inner := by
  induction names with
  | nil => exact .nil
  | cons name rest ih =>
    rw [starts, List.pairwise_append]
    refine ⟨?_, List.pairwise_singleton _ _, ?_⟩
    · exact ih.map _ fun _ _ part => List.prefix_cons_inj name |>.2 part
    · intro inner mem outer last
      obtain ⟨start, -, rfl⟩ := List.mem_map.1 mem
      rw [List.mem_singleton.1 last]
      exact List.prefix_cons_inj name |>.2 List.nil_prefix

theorem prefix_of_mem_starts {start : List String} (mem : start ∈ starts names) :
    start <+: names := by
  induction names generalizing start with
  | nil => cases mem
  | cons name rest ih =>
    rcases List.mem_append.1 mem with mem | mem
    · obtain ⟨start, inRest, rfl⟩ := List.mem_map.1 mem
      exact List.prefix_cons_inj name |>.2 (ih inRest)
    · rw [List.mem_singleton.1 mem]
      exact List.prefix_cons_inj name |>.2 List.nil_prefix

theorem pairwise_andAbove (names : List String) :
    (andAbove names).Pairwise fun inner outer => outer <+: inner := by
  have kept : ∀ start ∈ ((starts names).filter fun start =>
      start.getLast? ≠ some "" ∧ start.getLast? ≠ some ".").drop 1, start <+: names := by
    intro start mem
    exact prefix_of_mem_starts (List.mem_of_mem_filter (List.mem_of_mem_drop mem))
  rw [andAbove, List.cons_append, List.pairwise_cons, List.pairwise_append]
  refine ⟨?_, ?_, List.pairwise_singleton _ _, ?_⟩
  · intro outer mem
    rcases List.mem_append.1 mem with mem | mem
    · exact kept outer mem
    · rw [List.mem_singleton.1 mem]
      exact List.nil_prefix
  · exact ((pairwise_starts names).filter _).drop
  · intro inner _ outer last
    rw [List.mem_singleton.1 last]
    exact List.nil_prefix

theorem createDirectories_spec {outcome : Except FileFault Unit} {ns : List String}
    (split : FileTree.names path = .ok ns)
    (created : files.createDirectories path = (outcome, files')) : Grown files files' ∧
      (outcome = .ok () ↔ files'.isDirectory ns = true) := by
  unfold createDirectories at created
  rw [split] at created
  obtain ⟨grown, ends⟩ := ensureAll_spec (pairwise_andAbove ns) created
  exact ⟨grown, ends ns rfl⟩

theorem createDirectories_of_isDirectory {ns : List String} (split : FileTree.names path = .ok ns)
    (directory : files.isDirectory ns = true) :
    files.createDirectories path = (.ok (), files) := by
  unfold createDirectories
  rw [split]
  change files.ensureAll (ns :: _) = _
  rw [ensureAll, createDirectory_of_isDirectory directory]
  simp only [ensureDirectory, createDirectory_of_isDirectory directory, directory, if_true]

end ContractBuild.FileTree
