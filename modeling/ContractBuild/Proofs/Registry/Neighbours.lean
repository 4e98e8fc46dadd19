import ContractBuild.Proofs.Registry.Insertion
import ContractBuild.Proofs.Registry.Staging
import ContractBuild.Proofs.Registry.VersionNames

/-!
# Versions side by side in the cache

Different versions have different binaries and different staged files. But the staged file of a
version with a pre-release or a build part is the binary of another version, of the one that says
`download` behind it. A download touches the binaries of its own version and of this one, and no
other.
-/

namespace ContractBuild

namespace FileTree

variable {files files' files'' : FileTree} {origin place p q : Place}

def SameFile (files files' : FileTree) (place : Place) : Prop :=
  ∀ content, files'.entry? place = some (.file content) ↔ files.entry? place = some (.file content)

theorem SameFile.refl (files : FileTree) (place : Place) : SameFile files files place := fun _ => .rfl

theorem SameFile.trans (first : SameFile files files' place) (second : SameFile files' files'' place) :
    SameFile files files'' place := fun content => (second content).trans (first content)

theorem SameFile.of_eq (same : files'.entry? place = files.entry? place) :
    SameFile files files' place := fun content => by rw [same]

theorem Put.sameFile {found : Option Entry} (put : Put files files' place found) (ne : q ≠ place) :
    SameFile files files' q := .of_eq (put.other ne)

theorem Grown.sameFile (grown : Grown files files') (place : Place) : SameFile files files' place :=
  fun _ => grown.file_iff

def moved (origin place : Place) : Place × Entry → Place × Entry
  | (p, e) => (if origin.isPrefixOf p then place ++ p.drop origin.length else p, e)

theorem moved_eq_self (apart : ¬ origin <+: q) (apart' : ¬ place <+: q) {e : Place × Entry}
    (here : e.1 = q ∨ (moved origin place e).1 = q) : moved origin place e = e := by
  by_cases below : origin <+: e.1
  · have came : (moved origin place e).1 = place ++ e.1.drop origin.length :=
      if_pos (List.isPrefixOf_iff_prefix.2 below)
    rcases here with rfl | here
    · exact absurd below apart
    · rw [came] at here
      exact absurd (here ▸ List.prefix_append ..) apart'
  · exact Prod.ext (if_neg (by rwa [List.isPrefixOf_iff_prefix])) rfl

theorem rename_directory {source target : String} (located : files.locate source = .ok origin)
    (located' : files.locate target = .ok place) (directory : files.entry? origin = some .directory)
    (renamed : files.rename source target = .ok files') :
    files' = .ofList (files.entries.map (moved origin place)) := by
  obtain ⟨_, found, rest⟩ := bind_eq_ok_iff.1 renamed
  cases located.symm.trans found
  obtain ⟨_, found', rest⟩ := bind_eq_ok_iff.1 rest
  cases located'.symm.trans found'
  obtain ⟨_, -, rest⟩ := bind_eq_ok_iff.1 rest
  rw [directory] at rest
  split at rest
  · cases ‹some Entry.directory = none›
  · cases ‹some Entry.directory = some (.file _)›
  · cases ‹some Entry.directory = some (.file _)›
  · cases rest
  · cases rest
  · split at rest
    · cases rest
    · exact (Except.ok.inj rest).symm

theorem rename_other {source target : String} (renamed : files.rename source target = .ok files') :
    ∃ origin place, files.locate source = .ok origin ∧ files.locate target = .ok place ∧
      ∀ q, ¬ origin <+: q → ¬ place <+: q → files'.entry? q = files.entry? q := by
  obtain ⟨origin, located, rest⟩ := bind_eq_ok_iff.1 renamed
  obtain ⟨place, located', rest⟩ := bind_eq_ok_iff.1 rest
  obtain ⟨_, -, rest⟩ := bind_eq_ok_iff.1 rest
  refine ⟨origin, place, located, located', fun q apart apart' => ?_⟩
  cases entry : files.entry? origin with
  | none =>
    rw [entry] at rest
    cases rest
  | some e =>
    cases e with
    | file content =>
      obtain ⟨_, _, found, found', -, changed⟩ :=
        rename_eq_ok ((at?_of_locate located).trans entry) renamed
      cases located.symm.trans found
      cases located'.symm.trans found'
      have ne (p : Place) (free : ¬ p <+: q) : q ≠ p := by
        rintro rfl
        exact free List.prefix_rfl
      rw [changed, if_neg (ne place apart'), if_neg (ne origin apart)]
    | directory =>
      rw [rename_directory located located' entry renamed]
      by_cases root : q = []
      · rw [root]
        rfl
      · rw [entry?_of_ne root, entry?_of_ne root,
          SortedMap.find?_ofList_map fun e => moved_eq_self apart apart', SortedMap.ofList_entries]

end FileTree

namespace Registry

namespace Setup

variable {setup : Setup} {v w : Version} {name name' : String}

theorem plain_binary (v : Version) : Plain (binaryName v) :=
  plain_of_toList (toList_binaryName v) v.slash_not_mem

theorem plain_staging (v : Version) : Plain (stagingName v) := by
  apply plain_of_toList (toList_stagingName v)
  rw [List.mem_append, not_or]
  exact ⟨v.slash_not_mem, by decide⟩

theorem binaryName_inj : binaryName v = binaryName w ↔ v = w := by
  rw [← String.toList_inj, toList_binaryName, toList_binaryName, List.append_cancel_left_eq,
    Version.chars_injective.eq_iff]

theorem stagingName_inj : stagingName v = stagingName w ↔ v = w := by
  rw [← String.toList_inj, toList_stagingName, toList_stagingName, List.append_cancel_left_eq,
    List.append_cancel_right_eq, Version.chars_injective.eq_iff]

theorem stagingName_eq_binaryName_iff : stagingName v = binaryName w ↔ v.stagingTwin? = some w := by
  rw [← String.toList_inj, toList_stagingName, toList_binaryName, List.append_cancel_left_eq,
    ← Version.chars_append_eq_iff]
  rfl

theorem join_inj (plain : Plain name) (plain' : Plain name') (directory : String) :
    Path.join directory name = Path.join directory name' ↔ name = name' := by
  simp only [Path.join, plain.relative, plain'.relative, Bool.false_eq_true, if_false]
  split
  · rw [String.append_right_inj]
  · rw [String.append_right_inj]

theorem binary_inj (setup : Setup) : setup.binary v = setup.binary w ↔ v = w :=
  (join_inj (plain_binary v) (plain_binary w) setup.directory).trans binaryName_inj

theorem staging_inj (setup : Setup) : setup.staging v = setup.staging w ↔ v = w :=
  (join_inj (plain_staging v) (plain_staging w) setup.directory).trans stagingName_inj

theorem staging_eq_binary_iff (setup : Setup) :
    setup.staging v = setup.binary w ↔ v.stagingTwin? = some w :=
  (join_inj (plain_staging v) (plain_binary w) setup.directory).trans stagingName_eq_binaryName_iff

theorem binaryPlace_apart (ne : name ≠ binaryName w) :
    ¬ setup.base ++ [name] <+: setup.binaryPlace w := by
  intro below
  have same := below.eq_of_length (by simp [binaryPlace])
  exact ne (List.singleton_inj.1 (List.append_cancel_left same))

end Setup

open FileTree Setup

variable {setup : Setup} {v w : Version} {files files' : FileTree}

/-- Neither the binary nor the staged file of the first version is the binary of the second. -/
def Apart (v w : Version) : Prop := v ≠ w ∧ v.stagingTwin? ≠ some w

instance (v w : Version) : Decidable (Apart v w) :=
  inferInstanceAs (Decidable (v ≠ w ∧ v.stagingTwin? ≠ some w))

theorem Apart.staging (apart : Apart v w) : ¬ setup.stagingPlace v <+: setup.binaryPlace w :=
  binaryPlace_apart fun same => apart.2 (stagingName_eq_binaryName_iff.1 same)

theorem Apart.binary (apart : Apart v w) : ¬ setup.binaryPlace v <+: setup.binaryPlace w :=
  binaryPlace_apart fun same => apart.1 (binaryName_inj.1 same)

theorem Apart.ne_staging (apart : Apart v w) : setup.binaryPlace w ≠ setup.stagingPlace v := by
  intro same
  have above : ¬ setup.stagingPlace v <+: setup.binaryPlace w := apart.staging
  exact above (same ▸ List.prefix_rfl)

theorem sameFile_remove (apart : Apart v w) :
    SameFile files ((files.remove (setup.staging v)).toOption.getD files) (setup.binaryPlace w) := by
  cases removed : files.remove (setup.staging v) with
  | error fault => exact .refl _ _
  | ok files' =>
    obtain ⟨place, _, located, -, put⟩ := remove_eq_ok removed
    obtain ⟨rfl, -⟩ := locate_join_eq_ok (plain_staging v) located
    exact put.sameFile apart.ne_staging

theorem sameFile_clear {outcome : Except Failure Unit} (apart : Apart v w)
    (cleared : clear (setup.staging v) files = (outcome, files')) :
    SameFile files files' (setup.binaryPlace w) := by
  unfold clear at cleared
  split at cleared
  · have same : SameFile files _ (setup.binaryPlace w) := sameFile_remove apart
    split at cleared <;> rename_i removed <;> cases cleared
    · rwa [removed] at same
    · exact .refl _ _
  · cases cleared
    exact .refl _ _

theorem sameFile_prepare {outcome : Except Failure Unit} (apart : Apart v w)
    (prepared : prepare setup v files = (outcome, files')) :
    SameFile files files' (setup.binaryPlace w) := by
  unfold prepare at prepared
  split at prepared <;> rename_i created
  · exact ((createDirectories_cache created).1.sameFile _).trans (sameFile_clear apart prepared)
  · cases prepared
    exact (createDirectories_cache created).1.sameFile _

theorem sameFile_write {content : Bytes} (apart : Apart v w)
    (written : files.write (setup.staging v) content = .ok files') :
    SameFile files files' (setup.binaryPlace w) := by
  obtain ⟨place, located, -, put⟩ := write_eq_ok written
  obtain ⟨rfl, -⟩ := locate_join_eq_ok (plain_staging v) located
  exact put.sameFile apart.ne_staging

theorem sameFile_settle {verdict final : Verdict} (apart : Apart v w)
    (settled : settle setup v verdict files = (final, files')) :
    SameFile files files' (setup.binaryPlace w) := by
  cases verdict with
  | some reason =>
    rw [settle_failure, Prod.mk.injEq] at settled
    obtain ⟨-, rfl⟩ := settled
    exact sameFile_remove apart
  | none =>
    cases staged : files.at? (setup.staging v) with
    | none =>
      rw [settle_unstaged staged, Prod.mk.injEq] at settled
      obtain ⟨-, rfl⟩ := settled
      exact .refl _ _
    | some e =>
      rw [settle_staged staged] at settled
      split at settled <;> rename_i renamed <;> cases settled
      · obtain ⟨origin, place, located, located', other⟩ := rename_other renamed
        obtain ⟨rfl, -⟩ := locate_join_eq_ok (plain_staging v) located
        obtain ⟨rfl, -⟩ := locate_join_eq_ok (plain_binary v) located'
        exact .of_eq (other _ apart.staging apart.binary)
      · exact sameFile_remove apart

variable {μ : Type} {s t : State μ} {a : Action μ} {c d : Nat}

def fetching? (setup : Setup) (s : State μ) : Action μ → Option Version
  | .advance c => match s.callers[c]? with
    | some ⟨v, .inspect⟩ =>
      if Table.find? v s.pending = none ∧ s.files.holds (setup.binary v) = false ∧
        setup.downloads = true then some v else none
    | _ => none
  | .write d _ | .settle d => s.versionOf? d
  | _ => none

theorem fetching?_inspect (here : s.callers[c]? = some ⟨v, .inspect⟩)
    (free : Table.find? v s.pending = none) (lacking : s.files.holds (setup.binary v) = false)
    (downloads : setup.downloads = true) : fetching? setup s (.advance c) = some v := by
  simp only [fetching?, here, free, lacking, downloads, and_self, if_true]

def fetched (setup : Setup) : State μ → List (Action μ) → List Version
  | _, [] => []
  | s, a :: rest => (fetching? setup s a).toList ++
      ((step setup s a).map fun t => fetched setup t rest).getD []

theorem Transition.sameFile (h : Transition setup s a t)
    (apart : ∀ v ∈ fetching? setup s a, Apart v w) :
    SameFile s.files t.files (setup.binaryPlace w) := by
  cases h with
  | start here free lacking downloads prepared =>
    exact sameFile_prepare (apart _ (fetching?_inspect here free lacking downloads)) prepared
  | unprepared here free lacking downloads failed =>
    exact sameFile_prepare (apart _ (fetching?_inspect here free lacking downloads)) failed
  | write here written => exact sameFile_write (apart _ (versionOf?_of_here here)) written
  | settle here settled => exact sameFile_settle (apart _ (versionOf?_of_here here)) settled
  | _ => exact .refl _ _

theorem sameFile_of_run {actions : List (Action μ)}
    (apart : ∀ v ∈ fetched setup s actions, Apart v w)
    (run : runActions setup s actions = some t) :
    SameFile s.files t.files (setup.binaryPlace w) := by
  induction actions generalizing s with
  | nil =>
    cases run
    exact .refl _ _
  | cons a actions ih =>
    obtain ⟨next, moved, rest⟩ := runActions_cons_iff.1 run
    simp only [fetched, moved, Option.map_some, Option.getD_some, List.mem_append,
      Option.mem_toList] at apart
    exact ((transition_of_step moved).sameFile fun v mem => apart v (.inl mem)).trans
      (ih (fun v mem => apart v (.inr mem)) rest)

/-- The binary of a version is the same file, at its place and, in a cache that is there, under its
path. -/
structure SameBinary (setup : Setup) (w : Version) (files files' : FileTree) : Prop where
  place : SameFile files files' (setup.binaryPlace w)
  path : setup.Ready files → setup.Ready files' → ∀ content,
    files'.at? (setup.binary w) = some (.file content) ↔
      files.at? (setup.binary w) = some (.file content)

theorem SameBinary.of_place (same : SameFile files files' (setup.binaryPlace w)) :
    SameBinary setup w files files' := by
  refine ⟨same, fun ready ready' content => ?_⟩
  rw [at?_eq_some_iff, at?_eq_some_iff]
  constructor
  · intro ⟨place, located, found⟩
    obtain ⟨rfl, -⟩ := locate_join_eq_ok (plain_binary w) located
    exact ⟨_, (locate_join_iff (plain_binary w) ready' ready).1 located, (same content).1 found⟩
  · intro ⟨place, located, found⟩
    obtain ⟨rfl, -⟩ := locate_join_eq_ok (plain_binary w) located
    exact ⟨_, (locate_join_iff (plain_binary w) ready ready').1 located, (same content).2 found⟩

theorem exists_removed {content : Bytes} (twin : v.stagingTwin? = some w)
    (here : s.callers[c]? = some ⟨v, .inspect⟩) (free : Table.find? v s.pending = none)
    (lacking : s.files.holds (setup.binary v) = false) (downloads : setup.downloads = true)
    (found : s.files.at? (setup.binary w) = some (.file content)) :
    ∃ t, step setup s (.advance c) = some t ∧ t.files.at? (setup.binary w) = none := by
  rw [← (staging_eq_binary_iff setup).2 twin] at found
  obtain ⟨files, removed⟩ := exists_remove found
  obtain ⟨place, content', located, entry, put⟩ := remove_eq_ok removed
  have gone : files.at? (setup.staging v) = none := put.at? (by rw [entry]; exact nofun) located
  obtain ⟨-, ns, named, -⟩ := locate_eq_ok_iff.1 located
  obtain ⟨rfl, ready⟩ := locate_join_eq_ok (plain_staging v) located
  obtain ⟨ns', named'⟩ := exists_names_directory named (plain_staging v).relative
  have prepared : prepare setup v s.files = (.ok (), files) := by
    rw [prepare, createDirectories_of_ready ready named']
    simp only [clear, holds_eq, found, Option.isSome_some, if_true, removed]
  refine ⟨_, step_inspect here, ?_⟩
  simp only [inspect, free, lacking, downloads, prepared, Bool.false_eq_true, if_false, if_true]
  change files.at? (setup.binary w) = none
  rw [← (staging_eq_binary_iff setup).2 twin]
  exact gone

theorem found_of_write {content : Bytes} (twin : v.stagingTwin? = some w)
    (version : s.versionOf? d = some v) (moved : step setup s (.write d content) = some t)
    (running : t.phase? d = some .running) :
    t.files.at? (setup.binary w) = some (.file content) := by
  rw [← (staging_eq_binary_iff setup).2 twin]
  cases transition_of_step moved with
  | write here written =>
    cases version.symm.trans (versionOf?_of_here here)
    obtain ⟨place, located, free, put⟩ := write_eq_ok written
    exact put.at? free located
  | unwritable here failed =>
    rw [State.phase?_setPhase_self version] at running
    cases running

/-- Binaries of different versions have different paths, and so have staged files. A staged file has
the path of a binary exactly if that is the binary of the twin. In a run in which neither a version
nor one whose twin it is has a download under way, its binary stays what it was. But the download of
a version removes the binary of its twin when it starts, and what it writes stands in its place. -/
theorem binaries_apart_iff (setup : Setup) (v w : Version) :
    ((setup.binary v = setup.binary w ↔ v = w) ∧ (setup.staging v = setup.staging w ↔ v = w) ∧
      (setup.staging v = setup.binary w ↔ v.stagingTwin? = some w)) ∧
    (∀ (s t : State μ) actions, runActions setup s actions = some t →
      (∀ u ∈ fetched setup s actions, Apart u w) → SameBinary setup w s.files t.files) ∧
    (v.stagingTwin? = some w → ∀ (s : State μ) (c : Nat) content,
      s.callers[c]? = some ⟨v, .inspect⟩ → Table.find? v s.pending = none →
        s.files.holds (setup.binary v) = false → setup.downloads = true →
          s.files.at? (setup.binary w) = some (.file content) →
            ∃ t, step setup s (.advance c) = some t ∧ t.files.at? (setup.binary w) = none) ∧
    (v.stagingTwin? = some w → ∀ (s t : State μ) d content, s.versionOf? d = some v →
      step setup s (.write d content) = some t → t.phase? d = some .running →
        t.files.at? (setup.binary w) = some (.file content)) := by
  refine ⟨⟨binary_inj setup, staging_inj setup, staging_eq_binary_iff setup⟩, ?_, ?_, ?_⟩
  · intro s t actions run apart
    exact .of_place (sameFile_of_run apart run)
  · intro twin s c content here free lacking downloads found
    exact exists_removed twin here free lacking downloads found
  · intro twin s t d content version moved running
    exact found_of_write twin version moved running

def candidate : Version :=
  ⟨0, 5, 4, [⟨['r', 'c'], by decide, List.all_eq_true.1 rfl⟩,
    ⟨['1'], by decide, List.all_eq_true.1 rfl⟩], []⟩

def candidateTwin : Version := { candidate with pre := candidate.pre ++ [.download] }

def neighbours : Setup := ⟨"cache", true, .seconds 1⟩

def neighbourFiles : FileTree :=
  .ofList [(["cache"], .directory), (["cache", "solc-v0.5.4-rc.1.download"], .file [7])]

def ask (v : Version) : List (Action Nat) := [.get v, .advance 0, .advance 0, .advance 0]

def besides : List (Action Nat) :=
  ask (.release 0 5 4) ++ [.advance 0, .write 0 [1], .finish 0 none, .settle 0]

theorem besides_isSome : (runActions neighbours (.start neighbourFiles) besides).isSome = true := by
  decide +kernel

theorem ask_isSome :
    (runActions neighbours (.start neighbourFiles) (ask candidate)).isSome = true := by
  decide +kernel

def askedState : State Nat :=
  (runActions neighbours (.start neighbourFiles) (ask candidate)).get ask_isSome

theorem binaries_apart_iff_besides :
    (∃ t, runActions neighbours (.start neighbourFiles) besides = some t ∧
      t.files.at? (neighbours.binary candidateTwin) = some (.file [7])) ∧
    ∃ t, step neighbours askedState (.advance 0) = some t ∧
      t.files.at? (neighbours.binary candidateTwin) = none := by
  obtain ⟨-, stays, goes, -⟩ := @binaries_apart_iff Nat neighbours candidate candidateTwin
  constructor
  · have run := (Option.some_get besides_isSome).symm
    have same := stays _ _ _ run (by decide +kernel)
    refine ⟨_, run, (same.path ?_ ?_ [7]).2 (by decide +kernel)⟩
    · rw [Setup.Ready]
      decide +kernel
    · rw [Setup.Ready]
      decide +kernel
  · have here : askedState.callers[0]? = some ⟨candidate, .inspect⟩ := by rfl
    exact goes rfl askedState 0 [7] here (by rfl) (by decide +kernel) rfl (by decide +kernel)

/-- The versions differ, and the download of the one begins with the removal of the other. -/
theorem twin_removed : candidate ≠ candidateTwin ∧
    neighbours.staging candidate = neighbours.binary candidateTwin ∧
    fetched neighbours (.start neighbourFiles) (ask candidate ++ [.advance 0]) = [candidate] ∧
    neighbourFiles.at? (neighbours.binary candidateTwin) = some (.file [7]) ∧
    (runActions neighbours (.start neighbourFiles) (ask candidate ++ [.advance 0])).map
      (·.files.at? (neighbours.binary candidateTwin)) = some none := by
  decide +kernel

end Registry
end ContractBuild
