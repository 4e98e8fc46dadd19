import ContractBuild.Registry.Step
import ContractBuild.Proofs.Files.Directories
import ContractBuild.Proofs.Number.Digits

/-!
# Places in the cache

Two releases have different names, so their binaries lie at different places, and no binary of a
release lies where another one is staged. Once the directory of the cache is there, a path into it
leads to the same place forever.
-/

namespace ContractBuild

namespace Version

def IsRelease (v : Version) : Prop := v.pre = [] ∧ v.build = []

instance : DecidablePred IsRelease := fun v => inferInstanceAs (Decidable (v.pre = [] ∧ v.build = []))

variable {v w : Version}

theorem chars_of_isRelease (release : v.IsRelease) :
    v.chars = number v.major ++ '.' :: (number v.minor ++ '.' :: number v.patch) := by
  rw [chars, release.1, release.2]
  simp [marked]

theorem isDigit_of_mem_number {n : UInt64} {c : Char} (mem : c ∈ number n) : c.isDigit = true :=
  Digits.isDigit_of_mem_digits mem

theorem number_injective {m n : UInt64} (same : number m = number n) : m = n := by
  have numbers := congrArg Digits.number same
  rw [number, number, Digits.number_digits, Digits.number_digits] at numbers
  exact UInt64.toNat_inj.1 numbers

theorem number_append_inj {m n : UInt64} {rest rest' : List Char}
    (same : number m ++ '.' :: rest = number n ++ '.' :: rest') : m = n ∧ rest = rest' := by
  have undotted : ∀ k : UInt64, '.' ∉ number k := by
    intro k mem
    cases isDigit_of_mem_number mem
  have first : Text.splitOnce '.' (number m ++ '.' :: rest) = some (number m, rest) :=
    Text.splitOnce_eq_some_iff.2 ⟨rfl, undotted m⟩
  have second := Text.splitOnce_eq_some_iff.2 ⟨same, undotted n⟩
  rw [first, Option.some.injEq, Prod.mk.injEq] at second
  exact ⟨number_injective second.1, second.2⟩

theorem eq_of_text (release : v.IsRelease) (release' : w.IsRelease) (same : v.text = w.text) :
    v = w := by
  rw [text, text, String.ofList_inj, chars_of_isRelease release, chars_of_isRelease release'] at same
  obtain ⟨major, rest⟩ := number_append_inj same
  obtain ⟨minor, last⟩ := number_append_inj rest
  have patch := number_injective last
  cases v
  cases w
  obtain ⟨rfl, rfl⟩ := release
  obtain ⟨rfl, rfl⟩ := release'
  simp_all

theorem isDigit_or_dot_of_mem_chars (release : v.IsRelease) {c : Char} (mem : c ∈ v.chars) :
    c.isDigit = true ∨ c = '.' := by
  rw [chars_of_isRelease release, List.mem_append, List.mem_cons, List.mem_append,
    List.mem_cons] at mem
  rcases mem with mem | rfl | mem | rfl | mem
  · exact .inl (isDigit_of_mem_number mem)
  · exact .inr rfl
  · exact .inl (isDigit_of_mem_number mem)
  · exact .inr rfl
  · exact .inl (isDigit_of_mem_number mem)

end Version

namespace Text

theorem exists_split_cons (mark : Char) (s : List Char) :
    ∃ part parts, split mark s = part :: parts := by
  cases s with
  | nil => exact ⟨[], [], rfl⟩
  | cons c s =>
    rw [split]
    split
    · exact ⟨[], _, rfl⟩
    · split
      · exact ⟨_, _, rfl⟩
      · exact ⟨_, _, rfl⟩

theorem split_append (mark : Char) (front back : List Char) :
    split mark (front ++ mark :: back) = split mark front ++ split mark back := by
  induction front with
  | nil => simp [split]
  | cons c front ih =>
    obtain ⟨part, parts, eq⟩ := exists_split_cons mark front
    rw [List.cons_append, split, split, ih, eq]
    by_cases same : c = mark
    · simp [same]
    · simp [same]

theorem split_of_not_mem {mark : Char} {s : List Char} (free : mark ∉ s) : split mark s = [s] := by
  induction s with
  | nil => rfl
  | cons c s ih =>
    rw [List.mem_cons, not_or] at free
    rw [split, if_neg (Ne.symm free.1), ih free.2]

end Text

namespace Registry.Setup

open FileTree

variable {v w : Version}

def stagingName (v : Version) : String := binaryName v ++ ".download"

/-- Names that can stand at the end of a path. -/
structure Plain (name : String) : Prop where
  unsplit : '/' ∉ name.toList
  named : name ≠ "" ∧ name ≠ "." ∧ name ≠ ".."

theorem Plain.relative {name : String} (plain : Plain name) : Path.isAbsolute name = false := by
  rw [Path.isAbsolute, decide_eq_false_iff_not]
  intro absolute
  exact plain.unsplit (List.mem_of_mem_head? absolute)

theorem toList_binaryName (v : Version) :
    (binaryName v).toList = "solc-v".toList ++ v.chars := by
  simp only [binaryName, Version.text, String.toList_append, String.toList_ofList]

theorem toList_stagingName (v : Version) :
    (stagingName v).toList = "solc-v".toList ++ (v.chars ++ ".download".toList) := by
  rw [stagingName, String.toList_append, toList_binaryName, List.append_assoc]

theorem plain_of_toList {name : String} {rest : List Char} (eq : name.toList = "solc-v".toList ++ rest)
    (unsplit : '/' ∉ rest) : Plain name where
  unsplit := by
    rw [eq, List.mem_append]
    intro mem
    rcases mem with mem | mem
    · exact absurd mem (by decide)
    · exact unsplit mem
  named := by
    refine ⟨?_, ?_, ?_⟩ <;> intro same <;> rw [same] at eq <;> cases eq

theorem slash_not_mem_chars (release : v.IsRelease) : '/' ∉ v.chars := by
  intro mem
  rcases Version.isDigit_or_dot_of_mem_chars release mem with digit | dot
  · cases digit
  · cases dot

theorem plain_binaryName (release : v.IsRelease) : Plain (binaryName v) :=
  plain_of_toList (toList_binaryName v) (slash_not_mem_chars release)

theorem plain_stagingName (release : v.IsRelease) : Plain (stagingName v) := by
  apply plain_of_toList (toList_stagingName v)
  rw [List.mem_append]
  intro mem
  rcases mem with mem | mem
  · exact slash_not_mem_chars release mem
  · exact absurd mem (by decide)

theorem eq_of_chars (release : v.IsRelease) (release' : w.IsRelease) (same : v.chars = w.chars) :
    v = w :=
  Version.eq_of_text release release' (congrArg String.ofList same)

theorem eq_of_binaryName (release : v.IsRelease) (release' : w.IsRelease)
    (same : binaryName v = binaryName w) : v = w := by
  have lists := congrArg String.toList same
  rw [toList_binaryName, toList_binaryName] at lists
  exact eq_of_chars release release' (List.append_cancel_left lists)

theorem eq_of_stagingName (release : v.IsRelease) (release' : w.IsRelease)
    (same : stagingName v = stagingName w) : v = w := by
  have lists := congrArg String.toList same
  rw [toList_stagingName, toList_stagingName] at lists
  exact eq_of_chars release release' (List.append_cancel_right (List.append_cancel_left lists))

theorem binaryName_ne_stagingName (release : v.IsRelease) : binaryName v ≠ stagingName w := by
  intro same
  have lists := congrArg String.toList same
  rw [toList_binaryName, toList_stagingName] at lists
  have letter : 'd' ∈ v.chars := by
    rw [List.append_cancel_left lists]
    exact List.mem_append_right _ (by decide)
  rcases Version.isDigit_or_dot_of_mem_chars release letter with digit | dot
  · cases digit
  · cases dot

def enclosing (directory : String) : List String :=
  let names := (Text.split '/' directory.toList).map String.ofList
  if directory.isEmpty || directory.toList.getLast? = some '/' then names.dropLast else names

theorem directory_cases (directory : String) :
    (directory = "" ∨ ∃ front, directory.toList = front ++ ['/']) ∨
      (directory.isEmpty || decide (directory.toList.getLast? = some '/')) = false := by
  by_cases empty : directory = ""
  · exact .inl (.inl empty)
  · by_cases slash : directory.toList.getLast? = some '/'
    · obtain ⟨front, eq⟩ := List.getLast?_eq_some_iff.1 slash
      exact .inl (.inr ⟨front, eq⟩)
    · refine .inr ?_
      simp [empty, slash]

theorem split_directory (directory : String) :
    (Text.split '/' directory.toList).map String.ofList = enclosing directory ∨
      (Text.split '/' directory.toList).map String.ofList = enclosing directory ++ [""] := by
  rcases directory_cases directory with (rfl | ⟨front, eq⟩) | plain
  · exact .inr (by decide)
  · refine .inr ?_
    have last : directory.toList.getLast? = some '/' := by rw [eq, List.getLast?_concat]
    simp only [enclosing, last, decide_true, Bool.or_true, if_true]
    rw [eq, Text.split_append, List.map_append]
    simp [Text.split]
  · refine .inl ?_
    simp only [enclosing, plain]
    rfl

theorem split_join_relative {path : String} (relative : Path.isAbsolute path = false)
    (directory : String) :
    (Text.split '/' (Path.join directory path).toList).map String.ofList =
      enclosing directory ++ (Text.split '/' path.toList).map String.ofList := by
  simp only [Path.join, relative, Bool.false_eq_true, if_false]
  rcases directory_cases directory with (rfl | ⟨front, eq⟩) | unended
  · simp [enclosing, Text.split]
  · have last : directory.toList.getLast? = some '/' := by rw [eq, List.getLast?_concat]
    simp only [last, decide_true, Bool.or_true, if_true, enclosing, String.toList_append]
    rw [eq, List.append_assoc, List.singleton_append, Text.split_append, Text.split_append]
    simp [Text.split]
  · simp only [unended, Bool.false_eq_true, if_false, enclosing, String.toList_append]
    rw [List.append_assoc]
    change (Text.split '/' (directory.toList ++ '/' :: path.toList)).map String.ofList = _
    rw [Text.split_append, List.map_append]

theorem split_join {name : String} (plain : Plain name) (directory : String) :
    (Text.split '/' (Path.join directory name).toList).map String.ofList =
      enclosing directory ++ [name] := by
  rw [split_join_relative plain.relative, Text.split_of_not_mem plain.unsplit]
  simp

theorem names_eq_ok {path : String} {ns : List String} (named : FileTree.names path = .ok ns) :
    ns = (Text.split '/' path.toList).map String.ofList := by
  unfold FileTree.names at named
  split at named
  · cases named
  · split at named
    · cases named
    · exact (Except.ok.inj named).symm

theorem exists_names_directory {directory name : String} {ns : List String}
    (named : FileTree.names (Path.join directory name) = .ok ns)
    (relative : Path.isAbsolute name = false) :
    ∃ ns', FileTree.names directory = .ok ns' := by
  obtain ⟨rest, eq⟩ : ∃ rest, Path.join directory name = directory ++ rest := by
    simp only [Path.join, relative, Bool.false_eq_true, if_false]
    split
    · exact ⟨name, rfl⟩
    · exact ⟨"/" ++ name, String.append_assoc⟩
  rw [eq] at named
  unfold FileTree.names at named ⊢
  split at named
  · cases named
  · rename_i free
    split at named
    · cases named
    · rename_i short
      rw [String.toList_append] at free
      rw [String.utf8ByteSize_append] at short
      have free' : '\x00' ∉ directory.toList := by
        intro mem
        exact free (List.contains_iff_mem.2 (List.mem_append_left _ mem))
      rw [if_neg (by simpa using free'), if_neg (by omega)]
      exact ⟨_, rfl⟩

variable {setup : Setup} {files files' : FileTree} {name : String} {p : FileTree.Place}

def base (setup : Setup) : FileTree.Place := goal (enclosing setup.directory)

/-- The directory of the cache is there. -/
def Ready (setup : Setup) (files : FileTree) : Prop :=
  files.isDirectory (enclosing setup.directory) = true

theorem isDirectory_iff_ready {ns : List String} (named : FileTree.names setup.directory = .ok ns) :
    files.isDirectory ns = true ↔ setup.Ready files := by
  rw [names_eq_ok named, Ready]
  rcases split_directory setup.directory with eq | eq
  · rw [eq]
  · rw [eq, isDirectory_concat_empty]

theorem goal_join (plain : Plain name) :
    goal (enclosing setup.directory ++ [name]) = setup.base ++ [name] := by
  obtain ⟨some, here, up⟩ := plain.named
  rw [goal_concat, after, if_neg (by simp [some, here]), if_neg up, base]

theorem locate_join_eq_ok (plain : Plain name)
    (located : files.locate (Path.join setup.directory name) = .ok p) :
    p = setup.base ++ [name] ∧ setup.Ready files := by
  obtain ⟨-, ns, named, walked⟩ := locate_eq_ok_iff.1 located
  rw [names_eq_ok named, split_join plain] at walked
  refine ⟨?_, ?_⟩
  · rw [walk_eq_ok walked, goal_join plain]
  · rw [walk_concat] at walked
    obtain ⟨above, walked, followed⟩ := bind_eq_ok_iff.1 walked
    have eq := walk_eq_ok walked
    subst eq
    exact isDirectory_iff.2 ⟨walked, (follow_eq_ok_iff.1 followed).1⟩

theorem locate_join_iff (plain : Plain name) (ready : setup.Ready files) (ready' : setup.Ready files') :
    files.locate (Path.join setup.directory name) = .ok p ↔
      files'.locate (Path.join setup.directory name) = .ok p := by
  have walks : ∀ {files : FileTree}, setup.Ready files →
      (files.walk (enclosing setup.directory ++ [name]) = .ok p ↔
        name.utf8ByteSize ≤ nameLimit ∧ p = after setup.base name) := by
    intro files ready
    obtain ⟨walked, directory⟩ := isDirectory_iff.1 ready
    rw [walk_concat, bind_eq_ok_iff]
    constructor
    · intro ⟨above, walked', followed⟩
      rw [walked] at walked'
      cases walked'
      exact (follow_eq_ok_iff.1 followed).2
    · intro rest
      exact ⟨_, walked, follow_eq_ok_iff.2 ⟨directory, rest⟩⟩
  rw [locate_eq_ok_iff, locate_eq_ok_iff]
  apply and_congr_right
  intro _
  constructor
  · intro ⟨ns, named, walked⟩
    rw [names_eq_ok named, split_join plain, walks ready] at walked
    refine ⟨ns, named, ?_⟩
    rwa [names_eq_ok named, split_join plain, walks ready']
  · intro ⟨ns, named, walked⟩
    rw [names_eq_ok named, split_join plain, walks ready'] at walked
    refine ⟨ns, named, ?_⟩
    rwa [names_eq_ok named, split_join plain, walks ready]

theorem at?_join_congr (plain : Plain name) (ready : setup.Ready files)
    (ready' : setup.Ready files')
    (same : files'.entry? (setup.base ++ [name]) = files.entry? (setup.base ++ [name])) :
    files'.at? (Path.join setup.directory name) = files.at? (Path.join setup.directory name) := by
  ext e
  rw [at?_eq_some_iff, at?_eq_some_iff]
  constructor
  · intro ⟨place, located, entry⟩
    obtain ⟨rfl, -⟩ := locate_join_eq_ok plain located
    rw [same] at entry
    exact ⟨_, (locate_join_iff plain ready' ready).1 located, entry⟩
  · intro ⟨place, located, entry⟩
    obtain ⟨rfl, -⟩ := locate_join_eq_ok plain located
    rw [← same] at entry
    exact ⟨_, (locate_join_iff plain ready ready').1 located, entry⟩

def binaryPlace (setup : Setup) (v : Version) : FileTree.Place := setup.base ++ [binaryName v]

def stagingPlace (setup : Setup) (v : Version) : FileTree.Place := setup.base ++ [stagingName v]

theorem binaryPlace_ne_stagingPlace (release : v.IsRelease) :
    setup.binaryPlace v ≠ setup.stagingPlace w := by
  intro same
  exact binaryName_ne_stagingName release (List.singleton_inj.1 (List.append_cancel_left same))

theorem eq_of_binaryPlace (release : v.IsRelease) (release' : w.IsRelease)
    (same : setup.binaryPlace v = setup.binaryPlace w) : v = w :=
  eq_of_binaryName release release' (List.singleton_inj.1 (List.append_cancel_left same))

theorem eq_of_stagingPlace (release : v.IsRelease) (release' : w.IsRelease)
    (same : setup.stagingPlace v = setup.stagingPlace w) : v = w :=
  eq_of_stagingName release release' (List.singleton_inj.1 (List.append_cancel_left same))

theorem locate_binary (release : v.IsRelease) (located : files.locate (setup.binary v) = .ok p) :
    p = setup.binaryPlace v :=
  (locate_join_eq_ok (plain_binaryName release) located).1

theorem locate_staging (release : v.IsRelease) (located : files.locate (setup.staging v) = .ok p) :
    p = setup.stagingPlace v ∧ setup.Ready files :=
  locate_join_eq_ok (plain_stagingName release) located

theorem at?_staging_congr (release : v.IsRelease) (ready : setup.Ready files)
    (ready' : setup.Ready files')
    (same : files'.entry? (setup.stagingPlace v) = files.entry? (setup.stagingPlace v)) :
    files'.at? (setup.staging v) = files.at? (setup.staging v) :=
  at?_join_congr (plain_stagingName release) ready ready' same

theorem at?_staging_eq_none (release : v.IsRelease)
    (free : files.entry? (setup.stagingPlace v) = none) : files.at? (setup.staging v) = none := by
  cases found : files.at? (setup.staging v) with
  | none => rfl
  | some e =>
    obtain ⟨place, located, entry⟩ := at?_eq_some_iff.1 found
    obtain ⟨rfl, -⟩ := locate_staging release located
    rw [free] at entry
    cases entry

end Registry.Setup
end ContractBuild
