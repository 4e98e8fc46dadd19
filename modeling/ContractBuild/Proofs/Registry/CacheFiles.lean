import ContractBuild.Registry.Step
import ContractBuild.Proofs.Registry.CachePaths

/-!
# What a download does to the cache

Room is made for a download by making the directory and removing what an earlier download staged.
When the downloader has returned, its file is moved to the place of the binary or removed. Neither
touches any other file.
-/

namespace ContractBuild.Registry

open FileTree Setup

variable {setup : Setup} {v : Version} {files files' : FileTree}

/-- The staged file is gone, and all else is as it was. -/
structure Cleared (setup : Setup) (v : Version) (files files' : FileTree) : Prop where
  keeps : Keeps files files'
  gone : files'.at? (setup.staging v) = none
  others : ∀ q, q ≠ setup.stagingPlace v → files'.entry? q = files.entry? q
  old : ∀ q content, files'.entry? q = some (.file content) → files.entry? q = some (.file content)

theorem Cleared.of_none (free : files.at? (setup.staging v) = none) : Cleared setup v files files :=
  ⟨fun _ => id, free, fun _ _ => rfl, fun _ _ => id⟩

theorem Cleared.of_remove (release : v.IsRelease)
    (removed : files.remove (setup.staging v) = .ok files') : Cleared setup v files files' := by
  obtain ⟨place, content, located, file, put⟩ := remove_eq_ok removed
  obtain ⟨rfl, -⟩ := locate_staging release located
  refine ⟨put.keeps ?_, at?_staging_eq_none release put.self, fun q => put.other, ?_⟩
  · rw [file]
    exact nofun
  · intro q content found
    by_cases same : q = setup.stagingPlace v
    · rw [same, put.self] at found
      cases found
    · rwa [put.other same] at found

theorem clear_eq_ok (release : v.IsRelease)
    (cleared : clear (setup.staging v) files = (.ok (), files')) : Cleared setup v files files' := by
  unfold clear at cleared
  split at cleared
  · split at cleared
    · cases cleared
      exact .of_remove release ‹_›
    · cases cleared
  · rename_i free
    cases cleared
    rw [holds_eq, Bool.not_eq_true, Option.isSome_eq_false_iff, Option.isNone_iff_eq_none] at free
    exact .of_none free

theorem clear_eq_error {path : String} {failure : Failure}
    (failed : clear path files = (.error failure, files')) :
    files' = files ∧ files.at? path = some .directory := by
  unfold clear at failed
  split at failed
  · rename_i held
    split at failed
    · cases failed
    · rename_i fault kept
      cases failed
      rw [holds_eq] at held
      obtain ⟨e, found⟩ := Option.isSome_iff_exists.1 held
      cases e with
      | directory => exact ⟨rfl, found⟩
      | file content =>
        obtain ⟨rest, removed⟩ := exists_remove found
        rw [removed] at kept
        cases kept
  · cases failed

theorem clear_of_file {path : String} (file : files.at? path ≠ some .directory) :
    ∃ files', clear path files = (.ok (), files') := by
  cases cleared : clear path files with
  | mk outcome files' =>
    cases outcome with
    | ok done => exact ⟨files', rfl⟩
    | error failure => exact absurd (clear_eq_error cleared).2 file

theorem exists_names_of_staged {e : Entry} (release : v.IsRelease)
    (staged : files.at? (setup.staging v) = some e) :
    (∃ ns, FileTree.names setup.directory = .ok ns) ∧ setup.Ready files := by
  obtain ⟨place, located, -⟩ := at?_eq_some_iff.1 staged
  obtain ⟨-, ready⟩ := locate_staging release located
  obtain ⟨-, ns, named, -⟩ := locate_eq_ok_iff.1 located
  exact ⟨exists_names_directory named (plain_stagingName release).relative, ready⟩

theorem createDirectories_of_ready (ready : setup.Ready files) {ns : List String}
    (named : FileTree.names setup.directory = .ok ns) :
    files.createDirectories setup.directory = (.ok (), files) :=
  createDirectories_of_isDirectory named ((isDirectory_iff_ready named).2 ready)

theorem createDirectories_cache {made : Except FileFault Unit}
    (created : files.createDirectories setup.directory = (made, files')) :
    Grown files files' ∧ (setup.Ready files → files' = files) ∧
      (made = .ok () → setup.Ready files' ∧ ∃ ns, FileTree.names setup.directory = .ok ns) ∧
      (made ≠ .ok () → ∀ v : Version, v.IsRelease → files'.at? (setup.staging v) = none) := by
  cases named : FileTree.names setup.directory with
  | error fault =>
    rw [createDirectories, named] at created
    cases created
    refine ⟨.refl files, fun _ => rfl, nofun, fun _ v release => ?_⟩
    apply Option.eq_none_iff_forall_ne_some.2
    intro e staged
    obtain ⟨⟨ns, named'⟩, -⟩ := exists_names_of_staged release staged
    rw [named] at named'
    cases named'
  | ok ns =>
    obtain ⟨grown, ends⟩ := createDirectories_spec named created
    rw [isDirectory_iff_ready named] at ends
    refine ⟨grown, fun ready => ?_, fun made => ⟨ends.1 made, ns, rfl⟩, fun failed v release => ?_⟩
    · rw [createDirectories_of_ready ready named] at created
      exact (Prod.mk.inj created).2.symm
    · apply Option.eq_none_iff_forall_ne_some.2
      intro e staged
      exact failed (ends.2 (exists_names_of_staged release staged).2)

/-- What is known of the files when room was made for a download, or could not be made. -/
structure Prepared (setup : Setup) (v : Version) (files files' : FileTree)
    (outcome : Except Failure Unit) : Prop where
  keeps : Keeps files files'
  old : ∀ q content, files'.entry? q = some (.file content) → files.entry? q = some (.file content)
  others : setup.Ready files → ∀ q, q ≠ setup.stagingPlace v → files'.entry? q = files.entry? q
  ready : outcome = .ok () → setup.Ready files'
  named : outcome = .ok () → ∃ ns, FileTree.names setup.directory = .ok ns
  cleared : outcome = .ok () → files'.at? (setup.staging v) = none
  unchanged : outcome ≠ .ok () → setup.Ready files → files' = files
  unstaged : outcome ≠ .ok () → ∀ content, files'.at? (setup.staging v) ≠ some (.file content)

theorem prepare_spec {outcome : Except Failure Unit} (release : v.IsRelease)
    (prepared : prepare setup v files = (outcome, files')) :
    Prepared setup v files files' outcome := by
  unfold prepare at prepared
  split at prepared
  · rename_i between created
    obtain ⟨grown, unchanged, ready, -⟩ := createDirectories_cache created
    have old : ∀ q content, between.entry? q = some (.file content) →
        files.entry? q = some (.file content) := fun _ _ => grown.file_iff.1
    cases outcome with
    | ok done =>
      have cleared := clear_eq_ok release prepared
      refine ⟨fun q directory => cleared.keeps q (grown.keeps q directory),
        fun q content found => old q content (cleared.old q content found), fun was q ne => ?_,
        fun _ => cleared.keeps.isDirectory (ready rfl).1, fun _ => (ready rfl).2,
        fun _ => cleared.gone, fun failed => absurd rfl failed, fun failed => absurd rfl failed⟩
      rw [cleared.others q ne, unchanged was]
    | error failure =>
      obtain ⟨rfl, staged⟩ := clear_eq_error prepared
      refine ⟨grown.keeps, old, fun was q _ => by rw [unchanged was], nofun, nofun, nofun,
        fun _ => unchanged, fun _ content file => ?_⟩
      rw [staged] at file
      cases file
  · rename_i fault between failed
    obtain ⟨grown, unchanged, -, unstaged⟩ := createDirectories_cache failed
    cases prepared
    refine ⟨grown.keeps, fun _ _ => grown.file_iff.1, fun was q _ => by rw [unchanged was], nofun,
      nofun, nofun, fun _ => unchanged, fun _ content file => ?_⟩
    rw [unstaged nofun v release] at file
    cases file

theorem exists_prepare {ns : List String} (named : FileTree.names setup.directory = .ok ns)
    (ready : setup.Ready files) (file : files.at? (setup.staging v) ≠ some .directory) :
    ∃ files', prepare setup v files = (.ok (), files') := by
  rw [prepare, createDirectories_of_ready ready named]
  exact clear_of_file file

theorem write_spec {content : Bytes} (release : v.IsRelease)
    (written : files.write (setup.staging v) content = .ok files') :
    Keeps files files' ∧ Put files files' (setup.stagingPlace v) (some (.file content)) ∧
      files'.at? (setup.staging v) = some (.file content) := by
  obtain ⟨place, located, free, put⟩ := write_eq_ok written
  obtain ⟨rfl, ready⟩ := locate_staging release located
  have keeps := put.keeps free
  have ready' : setup.Ready files' := keeps.isDirectory ready
  have located' := (locate_join_iff (plain_stagingName release) ready ready').1 located
  exact ⟨keeps, put, at?_eq_some_iff.2 ⟨_, located', put.self⟩⟩

/-- What is known of the files when the worker has moved or removed what was staged. -/
structure Settled (setup : Setup) (v : Version) (files files' : FileTree) (verdict : Verdict) :
    Prop where
  keeps : Keeps files files'
  gone : files'.at? (setup.staging v) = none
  others : ∀ q, q ≠ setup.stagingPlace v → q ≠ setup.binaryPlace v →
    files'.entry? q = files.entry? q
  binary : ∀ content, files'.entry? (setup.binaryPlace v) = some (.file content) →
    files.entry? (setup.binaryPlace v) = some (.file content) ∨
      verdict = none ∧ files.at? (setup.staging v) = some (.file content)

theorem Cleared.settled (cleared : Cleared setup v files files')
    (verdict : Verdict) : Settled setup v files files' verdict where
  keeps := cleared.keeps
  gone := cleared.gone
  others q ne _ := cleared.others q ne
  binary content found := .inl (cleared.old _ content found)

theorem cleared_removed (release : v.IsRelease) (file : files.at? (setup.staging v) ≠ some .directory) :
    Cleared setup v files ((files.remove (setup.staging v)).toOption.getD files) := by
  cases removed : files.remove (setup.staging v) with
  | ok rest => exact .of_remove release removed
  | error fault =>
    apply Cleared.of_none
    cases found : files.at? (setup.staging v) with
    | none => rfl
    | some e =>
      cases e with
      | directory => exact absurd found file
      | file content =>
        obtain ⟨rest, ok⟩ := exists_remove found
        rw [removed] at ok
        cases ok

theorem settled_renamed {content : Bytes} (release : v.IsRelease)
    (file : files.at? (setup.staging v) = some (.file content))
    (renamed : files.rename (setup.staging v) (setup.binary v) = .ok files') :
    Settled setup v files files' none := by
  obtain ⟨origin, place, located, located', free, moved⟩ := rename_eq_ok file renamed
  obtain ⟨rfl, -⟩ := locate_staging release located
  obtain rfl := locate_binary release located'
  have entry := at?_of_locate located
  rw [file] at entry
  have apart : setup.stagingPlace v ≠ setup.binaryPlace v :=
    (binaryPlace_ne_stagingPlace release).symm
  refine ⟨fun q directory => ?_, at?_staging_eq_none release ?_, fun q ne ne' => ?_,
    fun found here => .inr ⟨rfl, ?_⟩⟩
  · rw [moved q, if_neg, if_neg, directory]
    · intro same
      rw [same, ← entry] at directory
      cases directory
    · intro same
      rw [same] at directory
      exact free directory
  · rw [moved, if_neg apart, if_pos rfl]
  · rw [moved q, if_neg ne', if_neg ne]
  · rw [moved, if_pos rfl] at here
    rw [file, here]

theorem settle_failure (reason : String) : settle setup v (some reason) files =
    (some reason, (files.remove (setup.staging v)).toOption.getD files) := by
  delta settle
  dsimp only

theorem settle_unstaged (free : files.at? (setup.staging v) = none) :
    settle setup v none files = (none, files) := by
  delta settle
  simp only [holds_eq, free, Option.isSome_none, Bool.false_eq_true, if_false]

theorem settle_staged {e : Entry} (staged : files.at? (setup.staging v) = some e) :
    settle setup v none files =
      match files.rename (setup.staging v) (setup.binary v) with
      | .ok files => (none, files)
      | .error fault =>
        (some fault.message, (files.remove (setup.staging v)).toOption.getD files) := by
  delta settle
  simp only [holds_eq, staged, Option.isSome_some, if_true]
  cases files.rename (setup.staging v) (setup.binary v) <;> rfl

theorem settle_spec {verdict final : Verdict} (release : v.IsRelease)
    (file : files.at? (setup.staging v) ≠ some .directory)
    (settled : settle setup v verdict files = (final, files')) :
    Settled setup v files files' verdict := by
  have removed := cleared_removed release file
  cases verdict with
  | some reason =>
    rw [settle_failure, Prod.mk.injEq] at settled
    obtain ⟨-, rfl⟩ := settled
    exact removed.settled _
  | none =>
    cases staged : files.at? (setup.staging v) with
    | none =>
      rw [settle_unstaged staged, Prod.mk.injEq] at settled
      obtain ⟨-, rfl⟩ := settled
      exact (Cleared.of_none staged).settled _
    | some e =>
      cases e with
      | directory => exact absurd staged file
      | file content =>
        rw [settle_staged staged] at settled
        cases renamed : files.rename (setup.staging v) (setup.binary v) with
        | ok rest =>
          rw [renamed, Prod.mk.injEq] at settled
          obtain ⟨-, rfl⟩ := settled
          exact settled_renamed release staged renamed
        | error fault =>
          rw [renamed, Prod.mk.injEq] at settled
          obtain ⟨-, rfl⟩ := settled
          exact removed.settled _

end ContractBuild.Registry
