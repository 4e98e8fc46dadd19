import ContractBuild.Proofs.Registry.Attempts
import ContractBuild.Proofs.Registry.CacheFiles
import ContractBuild.Proofs.Registry.Runs

/-!
# Only completed downloads are cached

At every state of a run a binary that was not there at the start is what a downloader had written
when it returned without a failure. From the end of a download to the start of the next one nothing
is staged for its version, unless the worker died; then the next one removes what is.
-/

namespace ContractBuild.Registry

open FileTree Setup

variable {μ : Type} {setup : Setup} {files : FileTree} {s t : State μ} {a : Action μ}
  {actions : List (Action μ)} {c d e : Nat} {v w : Version}

def Action.writes? (d : Nat) : Action μ → Option Bytes
  | .write e content => if e = d then some content else none
  | _ => none

def written (d : Nat) (actions : List (Action μ)) : Option Bytes :=
  (actions.filterMap (Action.writes? d)).getLast?

theorem written_concat (d : Nat) (actions : List (Action μ)) (a : Action μ) :
    written d (actions ++ [a]) = (a.writes? d).or (written d actions) := by
  rw [written, List.filterMap_append, List.getLast?_append, written]
  cases wrote : a.writes? d <;> simp [wrote]

theorem written_concat_of_none (quiet : a.writes? d = none) :
    written d (actions ++ [a]) = written d actions := by
  rw [written_concat, quiet, Option.none_or]

theorem writes?_of_ne (ne : e ≠ d) (content : Bytes) :
    (Action.write d content : Action μ).writes? e = none := by
  rw [Action.writes?, if_neg ne.symm]

/-- The downloader returned without a failure, and this is what it had written. -/
def Returned (d : Nat) (actions : List (Action μ)) (last : Option Bytes) : Prop :=
  ∃ before after, actions = before ++ .finish d none :: after ∧ written d before = last

theorem Returned.concat {last : Option Bytes} (returned : Returned d actions last)
    (a : Action μ) : Returned d (actions ++ [a]) last := by
  obtain ⟨before, after, rfl, wrote⟩ := returned
  exact ⟨before, after ++ [a], by simp, wrote⟩

def Completed (s : State μ) (actions : List (Action μ)) (v : Version) (content : Bytes) : Prop :=
  ∃ d, s.versionOf? d = some v ∧ Returned d actions (some content)

theorem Completed.step {content : Bytes} (completed : Completed s actions v content)
    (moved : Transition setup s a t) : Completed t (actions ++ [a]) v content := by
  obtain ⟨d, version, returned⟩ := completed
  exact ⟨d, moved.versionOf?_kept version, returned.concat a⟩

/-- What stands where a download is staged that is the last one of its version. -/
def Staged (d : Nat) (actions : List (Action μ)) (found : Option Entry) : Phase → Prop
  | .running => found = (written d actions).map .file
  | .returned none => ∃ last, Returned d actions last ∧ found = last.map .file
  | .returned (some _) | .dead => found ≠ some .directory
  | .settled _ | .sent _ | .received => found = none

variable {found : Option Entry} {phase : Phase}

theorem Staged.concat (staged : Staged d actions found phase) (quiet : a.writes? d = none) :
    Staged d (actions ++ [a]) found phase := by
  cases phase with
  | running =>
    rw [Staged, written_concat_of_none quiet]
    exact staged
  | returned verdict =>
    cases verdict with
    | none =>
      obtain ⟨last, returned, eq⟩ := staged
      exact ⟨last, returned.concat a, eq⟩
    | some reason => exact staged
  | settled | sent | received | dead => exact staged

theorem map_file_ne_directory (last : Option Bytes) : last.map Entry.file ≠ some .directory := by
  cases last with
  | none => exact nofun
  | some content => exact nofun

theorem Staged.ne_directory (staged : Staged d actions found phase) : found ≠ some .directory := by
  cases phase with
  | running =>
    rw [staged]
    exact map_file_ne_directory _
  | returned verdict =>
    cases verdict with
    | none =>
      obtain ⟨last, -, eq⟩ := staged
      rw [eq]
      exact map_file_ne_directory _
    | some reason => exact staged
  | dead => exact staged
  | settled | sent | received =>
    rw [staged]
    exact nofun

theorem Staged.returned {content : Bytes}
    (staged : Staged d actions (some (.file content)) (.returned none)) :
    Returned d actions (some content) := by
  obtain ⟨last, returned, eq⟩ := staged
  cases last with
  | none => cases eq
  | some content' =>
    cases eq
    exact returned

/-- The cache after a run from the files. What is staged is known only of the last download of a
version: the ones before it were staged at the same place. -/
structure Cached (setup : Setup) (files : FileTree) (actions : List (Action μ)) (s : State μ) :
    Prop where
  ready : ∀ ⦃d v⦄, s.versionOf? d = some v →
    setup.Ready s.files ∧ ∃ ns, FileTree.names setup.directory = .ok ns
  unwritten : ∀ ⦃d⦄, s.versionOf? d = none → written d actions = none
  binary : ∀ ⦃v⦄, v.IsRelease → ∀ ⦃content⦄,
    s.files.entry? (setup.binaryPlace v) = some (.file content) →
    files.entry? (setup.binaryPlace v) = some (.file content) ∨ Completed s actions v content
  staged : ∀ ⦃d v phase⦄, s.IsLast d v → s.phase? d = some phase →
    Staged d actions (s.files.at? (setup.staging v)) phase

theorem Cached.start (setup : Setup) (files : FileTree) :
    Cached setup files [] (State.start files : State μ) where
  ready := by
    intro d v h
    simp [State.start, State.versionOf?] at h
  unwritten _ _ := rfl
  binary _ _ _ found := .inl found
  staged := by
    intro d v phase last
    simp [State.start, State.versionOf?, State.IsLast] at last

section

variable (inv : Cached setup files actions s) (moved : Transition setup s a t)
include inv moved

theorem Cached.binary_of_old (old : ∀ q content, t.files.entry? q = some (.file content) →
    s.files.entry? q = some (.file content)) : ∀ ⦃w⦄, w.IsRelease → ∀ ⦃content⦄,
    t.files.entry? (setup.binaryPlace w) = some (.file content) →
    files.entry? (setup.binaryPlace w) = some (.file content) ∨
      Completed t (actions ++ [a]) w content := by
  intro w release content found
  exact (inv.binary release (old _ _ found)).imp_right fun completed => completed.step moved

theorem Cached.of_caller (downloads : t.downloads = s.downloads) (quiet : ∀ d, a.writes? d = none)
    (keeps : Keeps s.files t.files)
    (old : ∀ q content, t.files.entry? q = some (.file content) →
      s.files.entry? q = some (.file content))
    (unchanged : setup.Ready s.files → t.files = s.files) :
    Cached setup files (actions ++ [a]) t where
  ready := by
    intro d w version
    rw [State.versionOf?, downloads] at version
    exact ⟨keeps.isDirectory (inv.ready version).1, (inv.ready version).2⟩
  unwritten := by
    intro d version
    rw [State.versionOf?, downloads] at version
    rw [written_concat_of_none (quiet d)]
    exact inv.unwritten version
  binary := inv.binary_of_old moved old
  staged := by
    intro d w phase last here
    simp only [State.IsLast, State.versionOf?, downloads] at last
    rw [State.phase?, downloads] at here
    rw [unchanged (inv.ready last.1).1]
    exact (inv.staged last here).concat (quiet d)

theorem Cached.of_download (fetching : Fetching s) {phase' : Phase}
    (here : s.downloads[d]? = some ⟨v, phase⟩) (active : phase.isOver = false)
    (versions : ∀ e, t.versionOf? e = s.versionOf? e)
    (phases : ∀ e, e ≠ d → t.phase? e = s.phase? e) (next : t.phase? d = some phase')
    (keeps : Keeps s.files t.files)
    (others : ∀ q, q ≠ setup.stagingPlace v → q ≠ setup.binaryPlace v →
      t.files.entry? q = s.files.entry? q)
    (binary : ∀ content, t.files.entry? (setup.binaryPlace v) = some (.file content) →
      s.files.entry? (setup.binaryPlace v) = some (.file content) ∨
        Returned d actions (some content))
    (quiet : ∀ e, e ≠ d → a.writes? e = none)
    (staged : Staged d actions (s.files.at? (setup.staging v)) phase →
      Staged d (actions ++ [a]) (t.files.at? (setup.staging v)) phase') :
    Cached setup files (actions ++ [a]) t := by
  have version := versionOf?_of_here here
  have release := fetching.downloads version
  obtain ⟨ready, named⟩ := inv.ready version
  have ready' := keeps.isDirectory ready
  have last := fetching.owned.isLast here active
  refine ⟨fun _ _ _ => ⟨ready', named⟩, ?_, ?_, ?_⟩
  · intro e none
    rw [versions] at none
    have ne : e ≠ d := by
      intro same
      rw [same, version] at none
      cases none
    rw [written_concat_of_none (quiet e ne)]
    exact inv.unwritten none
  · intro w release' content found
    by_cases same : w = v
    · subst same
      rcases binary content found with old | returned
      · exact (inv.binary release old).imp_right fun completed => completed.step moved
      · exact .inr ⟨d, moved.versionOf?_kept version, returned.concat a⟩
    · rw [others] at found
      · exact (inv.binary release' found).imp_right fun completed => completed.step moved
      · exact binaryPlace_ne_stagingPlace release'
      · exact fun place => same (eq_of_binaryPlace release' release place)
  · intro e w p last' found
    have before : s.IsLast e w := (isLast_iff versions).1 last'
    by_cases same : e = d
    · subst same
      have eq : w = v := Option.some.inj (before.1.symm.trans version)
      subst eq
      rw [next] at found
      cases found
      exact staged (inv.staged last (phase?_of_here here))
    · -- a version has one last download, so the other one stages another version elsewhere
      have ne : w ≠ v := by
        intro eq
        subst eq
        exact same (before.unique last)
      have release' := fetching.downloads before.1
      rw [phases e same] at found
      rw [at?_staging_congr release' ready ready']
      · exact (inv.staged before found).concat (quiet e same)
      · apply others
        · exact fun place => ne (eq_of_stagingPlace release' release place)
        · exact (binaryPlace_ne_stagingPlace release).symm

end

theorem Cached.of_phase (inv : Cached setup files actions s) (moved : Transition setup s a t)
    (fetching : Fetching s) {phase' : Phase} (here : s.downloads[d]? = some ⟨v, phase⟩)
    (active : phase.isOver = false) (same : t.files = s.files)
    (downloads : t.downloads = (s.setPhase d phase').downloads)
    (quiet : ∀ e, e ≠ d → a.writes? e = none)
    (staged : ∀ found, Staged d actions found phase → Staged d (actions ++ [a]) found phase') :
    Cached setup files (actions ++ [a]) t := by
  apply inv.of_download moved fetching here active
  · exact versionOf?_of_setPhase downloads
  · intro e ne
    rw [State.phase?, downloads]
    exact State.phase?_setPhase_ne _ ne _
  · rw [State.phase?, downloads]
    exact State.phase?_setPhase_self (versionOf?_of_here here) _
  · rw [same]
    exact fun _ => id
  · rw [same]
    exact fun _ _ _ => rfl
  · rw [same]
    exact fun _ => .inl
  · exact quiet
  · rw [same]
    exact staged _

theorem Cached.of_start (inv : Cached setup files actions s) (moved : Transition setup s a t)
    (fetching : Fetching s) (prepared : Prepared setup v s.files t.files (.ok ()))
    (release : v.IsRelease) (downloads : t.downloads = s.downloads ++ [⟨v, .running⟩])
    (quiet : ∀ d, a.writes? d = none) : Cached setup files (actions ++ [a]) t where
  ready _ _ _ := ⟨prepared.ready rfl, prepared.named rfl⟩
  unwritten := by
    intro d version
    rw [versionOf?_append downloads] at version
    split at version
    · cases version
    · rw [written_concat_of_none (quiet d)]
      exact inv.unwritten version
  binary := inv.binary_of_old moved prepared.old
  staged := by
    intro d w phase last here
    have version := last.1
    rw [versionOf?_append downloads] at version
    rw [phase?_append downloads] at here
    split at version
    · rename_i new
      subst new
      cases version
      rw [if_pos rfl] at here
      cases here
      rw [Staged, prepared.cleared rfl, written_concat_of_none (quiet _),
        inv.unwritten (versionOf?_length s), Option.map_none]
    · rename_i earlier
      rw [if_neg earlier] at here
      have later := last.2 s.downloads.length (lt_length_of_versionOf? version)
      rw [versionOf?_append downloads, if_pos rfl] at later
      have before : s.IsLast d w := by
        refine ⟨version, fun e lt found => last.2 e lt ?_⟩
        exact moved.versionOf?_kept found
      have ready := (inv.ready version).1
      rw [at?_staging_congr (fetching.downloads version) ready (prepared.ready rfl)]
      · exact (inv.staged before here).concat (quiet d)
      · apply prepared.others ready
        intro place
        rw [eq_of_stagingPlace (fetching.downloads version) release place] at later
        exact later rfl

theorem Cached.of_write {content : Bytes} {files' : FileTree}
    (inv : Cached setup files actions s) (moved : Transition setup s a { s with files := files' })
    (fetching : Fetching s) (here : s.downloads[d]? = some ⟨v, .running⟩)
    (wrote : s.files.write (setup.staging v) content = .ok files')
    (noted : a.writes? d = some content) (quiet : ∀ e, e ≠ d → a.writes? e = none) :
    Cached setup files (actions ++ [a]) { s with files := files' } := by
  have release := fetching.downloads (versionOf?_of_here here)
  obtain ⟨keeps, put, held⟩ := write_spec release wrote
  apply inv.of_download moved fetching here rfl
  · exact fun _ => rfl
  · exact fun _ _ => rfl
  · exact phase?_of_here here
  · exact keeps
  · exact fun q ne _ => put.other ne
  · intro content' found
    rw [put.other (binaryPlace_ne_stagingPlace release)] at found
    exact .inl found
  · exact quiet
  · intro _
    rw [Staged, held, written_concat, noted, Option.some_or, Option.map_some]

theorem Cached.of_settle {verdict final : Verdict} {files' : FileTree}
    (inv : Cached setup files actions s)
    (moved : Transition setup s a ({ s with files := files' }.setPhase d (.settled final)))
    (fetching : Fetching s) (here : s.downloads[d]? = some ⟨v, .returned verdict⟩)
    (settled : settle setup v verdict s.files = (final, files'))
    (quiet : ∀ e, e ≠ d → a.writes? e = none) :
    Cached setup files (actions ++ [a]) ({ s with files := files' }.setPhase d (.settled final)) := by
  have version := versionOf?_of_here here
  have release := fetching.downloads version
  have staged := inv.staged (fetching.owned.isLast here rfl) (phase?_of_here here)
  have ended := settle_spec release staged.ne_directory settled
  apply inv.of_download moved fetching here rfl
  · exact fun _ => State.versionOf?_setPhase ..
  · exact fun _ ne => State.phase?_setPhase_ne _ ne _
  · exact State.phase?_setPhase_self version _
  · exact ended.keeps
  · exact ended.others
  · intro content found
    rcases ended.binary content found with old | ⟨rfl, held⟩
    · exact .inl old
    · rw [held] at staged
      exact .inr staged.returned
  · exact quiet
  · exact fun _ => ended.gone

theorem Cached.step (inv : Cached setup files actions s) (fetching : Fetching s)
    (h : Transition setup s a t) : Cached setup files (actions ++ [a]) t := by
  have moved := h
  cases h with
  | start here free lacking downloads prepared =>
    have release := fetching.callers here
    exact inv.of_start moved fetching (prepare_spec release prepared) release rfl fun _ => rfl
  | unprepared here free lacking downloads failed =>
    have prepared := prepare_spec (fetching.callers here) failed
    exact inv.of_caller moved rfl (fun _ => rfl) prepared.keeps prepared.old
      (prepared.unchanged nofun)
  | installed here sent | failed here sent =>
    have found := here_of_phase? (fetching.awaited.waiting here) sent
    apply inv.of_phase moved fetching found rfl rfl rfl
    · exact fun _ _ => rfl
    · exact fun _ staged => staged
  | write here wrote =>
    exact inv.of_write moved fetching here wrote (if_pos rfl) fun _ ne => writes?_of_ne ne _
  | unwritable here failed =>
    apply inv.of_phase moved fetching here rfl rfl rfl
    · exact fun _ ne => writes?_of_ne ne _
    · exact fun _ staged => staged.ne_directory
  | @finish d v verdict here =>
    apply inv.of_phase moved fetching here rfl rfl rfl
    · exact fun _ _ => rfl
    · intro found staged
      cases verdict with
      | none => exact ⟨_, ⟨actions, [], rfl, rfl⟩, staged⟩
      | some reason => exact staged.ne_directory
  | die here =>
    apply inv.of_phase moved fetching here rfl rfl rfl
    · exact fun _ _ => rfl
    · exact fun _ staged => staged.ne_directory
  | settle here settled =>
    exact inv.of_settle moved fetching here settled fun _ _ => rfl
  | send here =>
    apply inv.of_phase moved fetching here rfl rfl rfl
    · exact fun _ _ => rfl
    · exact fun _ staged => staged
  | get | insert | hit | miss | turn | hitBehind | missBehind | takeOver | cached | offline
  | orphaned | confirmed | vanished | adoptFirst | adoptLater | publish | leave | giveUp | loaded
  | unloadable =>
    exact inv.of_caller moved rfl (fun _ => rfl) (fun _ => id) (fun _ _ => id) fun _ => rfl

theorem fetching_cached_of_run {files : FileTree}
    (releases : ∀ a ∈ actions, ∀ v ∈ a.version?, v.IsRelease)
    (run : runActions setup (State.start files) actions = some t) :
    Fetching t ∧ Cached setup files actions t := by
  refine runActions_induction
    (P := fun actions s => Fetching s ∧ Cached setup files actions s) ?_ ?_ releases run
  · exact ⟨.start files, .start setup files⟩
  · intro actions a last t _ inv release moved
    exact ⟨moved.fetching release inv.1, inv.2.step inv.1 moved⟩

theorem received_or_dead {u : State μ} (here : s.callers[c]? = some ⟨v, .waiting d⟩)
    (moved : step setup s (.advance c) = some u) :
    (∃ verdict, s.phase? d = some (.sent verdict)) ∧
        u.downloads = (s.setPhase d .received).downloads ∨
      s.phase? d = some .dead := by
  simp only [step, advance, here] at moved
  unfold receive at moved
  split at moved
  · rename_i sent
    cases moved
    exact .inl ⟨⟨_, sent⟩, rfl⟩
  · rename_i sent
    cases moved
    exact .inl ⟨⟨_, sent⟩, rfl⟩
  · rename_i dead
    exact .inr dead
  · cases moved

theorem step_inspect (here : s.callers[c]? = some ⟨v, .inspect⟩) :
    step setup s (.advance c) = some (inspect setup s c v) := by
  simp only [step, advance, here]

theorem inspect_started {files' : FileTree} (here : s.callers[c]? = some ⟨v, .inspect⟩)
    (free : Table.find? v s.pending = none) (lacking : s.files.holds (setup.binary v) = false)
    (downloads : setup.downloads = true) (prepared : prepare setup v s.files = (.ok (), files')) :
    (inspect setup s c v).callers[c]? = some ⟨v, .waiting s.downloads.length⟩ ∧
      (inspect setup s c v).downloads = s.downloads ++ [⟨v, .running⟩] := by
  simp only [inspect, free, lacking, downloads, prepared, Bool.false_eq_true, if_false, if_true]
  exact ⟨getElem?_callers_set here rfl, rfl⟩

theorem inspect_refused {failure : Failure} (here : s.callers[c]? = some ⟨v, .inspect⟩)
    (downloads : setup.downloads = true)
    (refused : (inspect setup s c v).callers[c]? = some ⟨v, .leave (.error failure)⟩) :
    prepare setup v s.files = (.error failure, (inspect setup s c v).files) := by
  have stage {t : State μ} {y : Stage μ} (callers : t.callers = s.callers.set c ⟨v, y⟩)
      (left : t.callers[c]? = some ⟨v, .leave (.error failure)⟩) : y = .leave (.error failure) := by
    rw [getElem?_callers_set here callers] at left
    cases left
    rfl
  cases left : Table.find? v s.pending with
  | some d =>
    simp only [inspect, left] at refused
    cases stage rfl refused
  | none =>
    cases held : s.files.holds (setup.binary v) with
    | true =>
      simp only [inspect, left, held, if_true] at refused
      cases stage rfl refused
    | false =>
      obtain ⟨outcome, files', prepared⟩ : ∃ outcome files', prepare setup v s.files =
        (outcome, files') := ⟨_, _, rfl⟩
      simp only [inspect, left, held, downloads, prepared, Bool.false_eq_true, if_false,
        if_true] at refused ⊢
      cases outcome with
      | ok done => cases stage rfl refused
      | error failure' =>
        cases stage rfl refused
        rfl

/-- What holds of the cache at each state of a run. A caller that gives up receives nothing: its
download is not over, and the next caller receives the end of it. -/
structure OnlyCompleted (setup : Setup) (files : FileTree) (actions : List (Action μ))
    (t : State μ) : Prop where
  cached : ∀ v place content, v.IsRelease → t.files.locate (setup.binary v) = .ok place →
    t.files.entry? place = some (.file content) →
      files.entry? place = some (.file content) ∨ Completed t actions v content
  delivered : ∀ (c d : Nat) v u, t.callers[c]? = some ⟨v, .waiting d⟩ → t.phase? d ≠ some .dead →
    step setup t (.advance c) = some u →
      u.IsLast d v ∧ u.phase? d = some .received ∧ u.files.holds (setup.staging v) = false
  gone : ∀ d v, t.IsLast d v → t.phase? d = some .received →
    t.files.holds (setup.staging v) = false
  started : ∀ a v u, step setup t a = some u → u.downloads = t.downloads ++ [⟨v, .running⟩] →
    u.files.holds (setup.staging v) = false
  retried : ∀ (c d : Nat) v, t.versionOf? d = some v → t.callers[c]? = some ⟨v, .inspect⟩ →
    Table.find? v t.pending = none → t.files.holds (setup.binary v) = false →
      setup.downloads = true →
        ∃ u, step setup t (.advance c) = some u ∧
          u.callers[c]? = some ⟨v, .waiting t.downloads.length⟩ ∧
          u.downloads = t.downloads ++ [⟨v, .running⟩]
  refused : ∀ (c : Nat) v u failure content, t.callers[c]? = some ⟨v, .inspect⟩ →
    setup.downloads = true → step setup t (.advance c) = some u →
      u.callers[c]? = some ⟨v, .leave (.error failure)⟩ →
        u.files.at? (setup.staging v) ≠ some (.file content)

theorem only_completed_downloads_cached (setup : Setup) (files : FileTree)
    {actions : List (Action μ)} {t : State μ}
    (releases : ∀ a ∈ actions, ∀ v ∈ a.version?, v.IsRelease)
    (run : runActions setup (State.start files) actions = some t) :
    OnlyCompleted setup files actions t := by
  obtain ⟨fetching, inv⟩ := fetching_cached_of_run releases run
  refine ⟨?_, ?_, ?_, ?_, ?_, ?_⟩
  · intro v place content release located found
    obtain rfl := locate_binary release located
    exact inv.binary release found
  · intro c d v u here alive moved
    rcases received_or_dead here moved with ⟨⟨verdict, sent⟩, downloads⟩ | dead
    · have found := here_of_phase? (fetching.awaited.waiting here) sent
      have before := fetching.owned.isLast found rfl
      have last : u.IsLast d v := (isLast_iff (versionOf?_of_setPhase downloads)).2 before
      have received : u.phase? d = some .received := by
        rw [State.phase?, downloads]
        exact State.phase?_setPhase_self before.1 _
      have next := inv.step fetching (transition_of_step moved)
      exact ⟨last, received, holds_eq_false (next.staged last received)⟩
    · exact absurd dead alive
  · intro d v last here
    exact holds_eq_false (inv.staged last here)
  · intro a v u moved grown
    obtain ⟨c, here, prepared⟩ := (transition_of_step moved).of_grown grown
    exact holds_eq_false ((prepare_spec (fetching.callers here) prepared).cleared rfl)
  · intro c d v version here free lacking downloads
    obtain ⟨e, last⟩ := exists_isLast version
    obtain ⟨ready, ns, named⟩ := inv.ready version
    obtain ⟨phase, found⟩ := versionOf?_eq_some_iff.1 last.1
    have file := (inv.staged last (phase?_of_here found)).ne_directory
    obtain ⟨files', prepared⟩ := exists_prepare named ready file
    exact ⟨_, step_inspect here, inspect_started here free lacking downloads prepared⟩
  · intro c v u failure content here downloads moved refused
    rw [step_inspect here] at moved
    cases moved
    have failed := inspect_refused here downloads refused
    exact (prepare_spec (fetching.callers here) failed).unstaged nofun content

def stragglers : List (Action Nat) :=
  let v := Version.release 0 5 4
  let w := Version.release 0 4 25
  [.get v, .advance 0, .advance 0, .advance 0, .advance 0, .write 0 [1], .giveUp 0, .advance 0,
    .get w, .advance 1, .advance 1, .advance 1, .advance 1, .write 1 [9], .die 1, .advance 1,
    .advance 1, .get w, .advance 2, .advance 2, .advance 2, .advance 2, .write 2 [7],
    .finish 2 (some "reset"), .settle 2, .send 2, .advance 2, .get v, .advance 3, .advance 3,
    .advance 3, .advance 3, .write 0 [1, 2], .finish 0 none, .settle 0, .send 0, .advance 3]

def stragglersSetup : Setup := ⟨"cache", true, .seconds 1⟩

theorem stragglers_isSome :
    (runActions stragglersSetup (State.start .empty) stragglers).isSome = true := by
  decide +kernel

theorem only_completed_downloads_cached_stragglers :
    ∃ t, (∀ a ∈ stragglers, ∀ v ∈ a.version?, v.IsRelease) ∧
      runActions stragglersSetup (State.start .empty) stragglers = some t ∧
      t.files.at? (stragglersSetup.binary (.release 0 5 4)) = some (.file [1, 2]) ∧
      Completed t stragglers (.release 0 5 4) [1, 2] := by
  have releases : ∀ a ∈ stragglers, ∀ v ∈ a.version?, v.IsRelease := by decide
  have run := (Option.some_get stragglers_isSome).symm
  have clean := only_completed_downloads_cached stragglersSetup .empty releases run
  have held : ((runActions stragglersSetup (State.start .empty) stragglers).get
      stragglers_isSome).files.at? (stragglersSetup.binary (.release 0 5 4)) =
        some (.file [1, 2]) := by
    decide +kernel
  refine ⟨_, releases, run, held, ?_⟩
  obtain ⟨place, located, found⟩ := at?_eq_some_iff.1 held
  rcases clean.cached _ place _ ⟨rfl, rfl⟩ located found with old | completed
  · rw [entry?_of_ne (ne_nil_of_file old)] at old
    cases old
  · exact completed

end ContractBuild.Registry
