import ContractBuild.Proofs.Registry.Staging

/-!
# What a download delivers

When a caller has received the success of a download and looks for the binary, it finds what the
downloader had written, and no file if it had written none. Until the caller has looked, no other
download of the version starts, and those of other versions leave the binary alone.
-/

namespace ContractBuild.Registry

open FileTree Setup

variable {μ : Type} {setup : Setup} {files files' : FileTree} {s t : State μ} {a : Action μ}
  {actions : List (Action μ)} {c d e : Nat} {v w : Version} {phase phase' : Phase}

def InReach (setup : Setup) (v : Version) (files : FileTree) : Prop :=
  ∀ content, files.entry? (setup.binaryPlace v) = some (.file content) → setup.Ready files

def Lacking (setup : Setup) (v : Version) (files : FileTree) : Prop :=
  ∀ content, files.at? (setup.binary v) ≠ some (.file content)

/-- The file that is found under the path of the binary is what the downloader had written. -/
def Delivered (setup : Setup) (v : Version) (d : Nat) (actions : List (Action μ))
    (files : FileTree) : Prop :=
  ∃ last, Returned d actions last ∧
    ∀ content, files.at? (setup.binary v) = some (.file content) ↔ last = some content

/-- What is known of the binary at the phases of the last download of its version. -/
def Arrived (setup : Setup) (v : Version) (d : Nat) (actions : List (Action μ))
    (files : FileTree) : Phase → Prop
  | .running | .returned _ => Lacking setup v files
  | .settled none | .sent none => Delivered setup v d actions files
  | .settled (some _) | .sent (some _) | .received | .dead => True

theorem Delivered.concat (delivered : Delivered setup v d actions files)
    (same : files'.at? (setup.binary v) = files.at? (setup.binary v)) (a : Action μ) :
    Delivered setup v d (actions ++ [a]) files' := by
  obtain ⟨last, returned, found⟩ := delivered
  refine ⟨last, returned.concat a, ?_⟩
  rwa [same]

theorem Arrived.concat (arrived : Arrived setup v d actions files phase)
    (same : files'.at? (setup.binary v) = files.at? (setup.binary v)) (a : Action μ) :
    Arrived setup v d (actions ++ [a]) files' phase := by
  cases phase with
  | running | returned verdict =>
    rw [Arrived, Lacking, same]
    exact arrived
  | settled verdict | sent verdict =>
    cases verdict with
    | none => exact Delivered.concat arrived same a
    | some reason => trivial
  | received | dead => trivial

theorem Transition.binary_kept (h : Transition setup s a t) (fetching : Fetching s)
    (cached : Cached setup files actions s) (version : s.versionOf? d = some v)
    (other : ∀ e, a = .settle e → s.versionOf? e ≠ some v) :
    t.files.at? (setup.binary v) = s.files.at? (setup.binary v) := by
  have release := fetching.downloads version
  have ready := (cached.ready version).1
  have ready' := ((cached.step fetching h).ready (h.versionOf?_kept version)).1
  refine at?_join_congr (plain_binaryName release) ready ready' ?_
  change t.files.entry? (setup.binaryPlace v) = s.files.entry? (setup.binaryPlace v)
  cases h with
  | start here _ _ _ prepared =>
    have room := prepare_spec (fetching.callers here) prepared
    exact room.others ready _ (binaryPlace_ne_stagingPlace release)
  | unprepared here _ _ _ failed =>
    have room := prepare_spec (fetching.callers here) failed
    exact room.others ready _ (binaryPlace_ne_stagingPlace release)
  | write here wrote =>
    obtain ⟨-, put, -⟩ := write_spec (fetching.downloads (versionOf?_of_here here)) wrote
    exact put.other (binaryPlace_ne_stagingPlace release)
  | @settle e w _ _ _ here settled =>
    have version' := versionOf?_of_here here
    have release' := fetching.downloads version'
    have staged := cached.staged (fetching.owned.isLast here rfl) (phase?_of_here here)
    have ended := settle_spec release' staged.ne_directory settled
    refine ended.others _ (binaryPlace_ne_stagingPlace release) fun place => ?_
    rw [← eq_of_binaryPlace release release' place] at version'
    exact other e rfl version'
  | _ => rfl

theorem settle_delivers {last : Option Bytes} (release : v.IsRelease) (ready : setup.Ready files)
    (lacking : Lacking setup v files) (staged : files.at? (setup.staging v) = last.map .file)
    (settled : settle setup v none files = (none, files')) (content : Bytes) :
    files'.at? (setup.binary v) = some (.file content) ↔ last = some content := by
  cases last with
  | none =>
    rw [settle_unstaged staged, Prod.mk.injEq] at settled
    obtain ⟨-, rfl⟩ := settled
    exact iff_of_false (lacking content) nofun
  | some written =>
    have ended := settle_spec release (by rw [staged]; exact nofun) settled
    rw [settle_staged staged] at settled
    cases renamed : files.rename (setup.staging v) (setup.binary v) with
    | error fault =>
      rw [renamed] at settled
      cases settled
    | ok rest =>
      rw [renamed, Prod.mk.injEq] at settled
      obtain ⟨-, rfl⟩ := settled
      obtain ⟨_, place, -, located, -, moved⟩ := rename_eq_ok staged renamed
      have ready' : setup.Ready rest := ended.keeps.isDirectory ready
      have located' := (locate_join_iff (plain_binaryName release) ready ready').1 located
      have found : rest.at? (setup.binary v) = some (.file written) := by
        rw [Setup.binary, at?_of_locate located', moved, if_pos rfl]
      rw [found]
      simp only [Option.some.injEq, Entry.file.injEq]

theorem Transition.fresh (h : Transition setup s a t) (found : t.versionOf? d = some v) :
    s.versionOf? d = some v ∨ (∃ c : Nat, s.callers[c]? = some ⟨v, .inspect⟩) ∧
      s.files.holds (setup.binary v) = false ∧ prepare setup v s.files = (.ok (), t.files) ∧
      t.phase? d = some .running := by
  cases h with
  | start here _ lacking _ prepared =>
    rw [versionOf?_append rfl] at found
    split at found
    · rename_i last
      cases found
      exact .inr ⟨⟨_, here⟩, lacking, prepared, by rw [phase?_append rfl, if_pos last]⟩
    · exact .inl found
  | installed | failed | unwritable | finish | die | settle | send =>
    exact .inl ((State.versionOf?_setPhase ..).symm.trans found)
  | _ => exact .inl found

theorem Transition.next_phase (h : Transition setup s a t) (other : a ≠ .settle d)
    (before : s.phase? d = some phase) (behind : t.phase? d = some phase') :
    phase' = phase ∨ phase.isOver = false ∧ phase'.isOver = true ∨
      (∃ verdict, phase = .running ∧ phase' = .returned verdict) ∨
      ∃ verdict, phase = .settled verdict ∧ phase' = .sent verdict := by
  have unmoved (same : t.phase? d = s.phase? d) : phase' = phase := by
    rw [before, behind] at same
    exact Option.some.inj same
  -- the phase of one download is set, which may be this one
  have set {e : Nat} {old new : Phase} (here : s.phase? e = some old)
      (moved : t.downloads = (s.setPhase e new).downloads) :
      phase' = phase ∨ e = d ∧ phase = old ∧ phase' = new := by
    by_cases same : e = d
    · subst same
      obtain ⟨job, found, -⟩ := Option.map_eq_some_iff.1 here
      rw [State.phase?, moved] at behind
      have now := behind.symm.trans (State.phase?_setPhase_self (versionOf?_of_here found) new)
      rw [before, Option.some.injEq] at here
      exact .inr ⟨rfl, here, Option.some.inj now⟩
    · refine .inl (unmoved ?_)
      rw [State.phase?, moved]
      exact State.phase?_setPhase_ne s (Ne.symm same) new
  cases h with
  | start =>
    refine .inl (unmoved ?_)
    rw [phase?_append rfl, if_neg]
    rintro rfl
    rw [State.phase?_eq, List.getElem?_eq_none (Nat.le_refl _)] at before
    cases before
  | installed _ sent | failed _ sent =>
    rcases set sent rfl with same | ⟨-, rfl, rfl⟩
    · exact .inl same
    · exact .inr (.inl ⟨rfl, rfl⟩)
  | unwritable here | finish here =>
    rcases set (phase?_of_here here) rfl with same | ⟨-, rfl, rfl⟩
    · exact .inl same
    · exact .inr (.inr (.inl ⟨_, rfl, rfl⟩))
  | die here =>
    rcases set (phase?_of_here here) rfl with same | ⟨-, rfl, rfl⟩
    · exact .inl same
    · exact .inr (.inl ⟨rfl, rfl⟩)
  | settle here =>
    rcases set (phase?_of_here here) rfl with same | ⟨rfl, -, -⟩
    · exact .inl same
    · exact absurd rfl other
  | send here =>
    rcases set (phase?_of_here here) rfl with same | ⟨-, rfl, rfl⟩
    · exact .inl same
    · exact .inr (.inr (.inr ⟨_, rfl, rfl⟩))
  | _ => exact .inl (unmoved rfl)

theorem Arrived.next (arrived : Arrived setup v d actions files phase)
    (next : phase' = phase ∨ phase.isOver = false ∧ phase'.isOver = true ∨
      (∃ verdict, phase = .running ∧ phase' = .returned verdict) ∨
      ∃ verdict, phase = .settled verdict ∧ phase' = .sent verdict) :
    Arrived setup v d actions files phase' := by
  rcases next with rfl | ⟨-, ended⟩ | ⟨verdict, rfl, rfl⟩ | ⟨verdict, rfl, rfl⟩
  · exact arrived
  · cases phase' with
    | received | dead => trivial
    | running | returned | settled | sent => cases ended
  · exact arrived
  · cases verdict with
    | none => exact arrived
    | some reason => exact arrived

theorem Transition.looking (h : Transition setup s a t)
    (here : t.callers[c]? = some ⟨v, .confirm⟩) :
    s.callers[c]? = some ⟨v, .confirm⟩ ∨
      ∃ d, s.callers[c]? = some ⟨v, .waiting d⟩ ∧ s.phase? d = some (.sent none) ∧
        t.downloads = (s.setPhase d .received).downloads ∧ t.files = s.files := by
  have old {i : Nat} {w : Version} {x y : Stage μ} (at_i : s.callers[i]? = some ⟨w, x⟩)
      (moved : t.callers = s.callers.set i ⟨w, y⟩) (other : y ≠ .confirm) :
      s.callers[c]? = some ⟨v, .confirm⟩ := by
    rcases caller_of_set at_i moved here with ⟨-, eq⟩ | ⟨-, old⟩
    · exact absurd (Caller.mk.inj eq).2.symm other
    · exact old
  cases h with
  | get w | insert w m =>
    rcases caller_of_append rfl here with ⟨-, eq⟩ | old
    · cases eq
    · exact .inl old
  | installed at_c sent =>
    rcases caller_of_set at_c rfl here with ⟨rfl, eq⟩ | ⟨-, old⟩
    · cases eq
      exact .inr ⟨_, at_c, sent, rfl, rfl⟩
    · exact .inl old
  | hit at_c | miss at_c | turn at_c | hitBehind at_c | missBehind at_c | takeOver at_c
  | cached at_c | start at_c | unprepared at_c | offline at_c | failed at_c | orphaned at_c
  | confirmed at_c | vanished at_c | adoptFirst at_c | adoptLater at_c | publish at_c | leave at_c
  | giveUp at_c | loaded at_c | unloadable at_c => exact .inl (old at_c rfl nofun)
  | write | unwritable | finish | die | settle | send => exact .inl here

theorem Transition.isLast_kept (h : Transition setup s a t) (turns : HaveTurn Stage.isFetching s)
    (here : s.callers[c]? = some ⟨v, .confirm⟩) (last : s.IsLast d v) : t.IsLast d v := by
  rcases h.versions with same | ⟨i, w, at_i, -, grown⟩
  · exact (isLast_iff same).2 last
  · have ne : w ≠ v := by
      rintro rfl
      have same := turns.unique here rfl at_i rfl
      subst same
      rw [here] at at_i
      cases at_i
    refine ⟨h.versionOf?_kept last.1, fun e lt found => ?_⟩
    rw [versionOf?_append grown] at found
    split at found
    · exact ne (Option.some.inj found)
    · exact last.2 e lt found

structure Deliveries (setup : Setup) (files : FileTree) (actions : List (Action μ)) (s : State μ) :
    Prop where
  keeps : Keeps files s.files
  arrived : ∀ ⦃d v phase⦄, InReach setup v files → s.IsLast d v → s.phase? d = some phase →
    Arrived setup v d actions s.files phase
  looking : ∀ ⦃c : Nat⦄ ⦃v⦄, InReach setup v files → s.callers[c]? = some ⟨v, .confirm⟩ →
    ∃ d, s.IsLast d v ∧ s.phase? d = some .received ∧ Delivered setup v d actions s.files

theorem Deliveries.start (setup : Setup) (files : FileTree) :
    Deliveries setup files [] (State.start files : State μ) where
  keeps _ := id
  arrived := by
    intro d v phase _ last
    simp [State.start, State.versionOf?, State.IsLast] at last
  looking := by
    intro c v _ here
    simp [State.start] at here

theorem lacking_of_start (cached : Cached setup files actions s)
    (inv : Deliveries setup files actions s) (release : v.IsRelease) (reach : InReach setup v files)
    (lacking : s.files.holds (setup.binary v) = false)
    (prepared : prepare setup v s.files = (.ok (), files')) : Lacking setup v files' := by
  intro content found
  have room := prepare_spec release prepared
  obtain ⟨place, located, entry⟩ := at?_eq_some_iff.1 found
  obtain rfl := locate_binary release located
  have old := room.old _ _ entry
  have ready : setup.Ready s.files := by
    rcases cached.binary release old with first | ⟨d, version, -⟩
    · exact inv.keeps.isDirectory (reach content first)
    · exact (cached.ready version).1
  have located' := (locate_join_iff (plain_binaryName release) (room.ready rfl) ready).1 located
  rw [holds_eq, Setup.binary, at?_of_locate located', old] at lacking
  cases lacking

theorem Transition.settles (h : Transition setup s (.settle e) t) (fetching : Fetching s)
    (version : s.versionOf? e = some v) (last : s.IsLast d v) :
    e = d ∧ ∃ verdict, s.phase? d = some (.returned verdict) := by
  cases h with
  | settle here =>
    cases version.symm.trans (versionOf?_of_here here)
    obtain rfl := (fetching.owned.isLast here rfl).unique last
    exact ⟨rfl, _, phase?_of_here here⟩

section

variable (fetching : Fetching s) (cached : Cached setup files actions s)
include fetching cached

theorem Transition.keeps (h : Transition setup s a t) : Keeps s.files t.files := by
  cases h with
  | start here _ _ _ prepared => exact (prepare_spec (fetching.callers here) prepared).keeps
  | unprepared here _ _ _ failed => exact (prepare_spec (fetching.callers here) failed).keeps
  | write here wrote => exact (write_spec (fetching.downloads (versionOf?_of_here here)) wrote).1
  | settle here settled =>
    have release := fetching.downloads (versionOf?_of_here here)
    have staged := cached.staged (fetching.owned.isLast here rfl) (phase?_of_here here)
    exact (settle_spec release staged.ne_directory settled).keeps
  | _ => exact fun _ => id

theorem arrived_of_settle (inv : Deliveries setup files actions s) (reach : InReach setup v files)
    (h : Transition setup s (.settle d) t) (last : s.IsLast d v) (now : t.phase? d = some phase') :
    Arrived setup v d (actions ++ [.settle d]) t.files phase' := by
  cases h with
  | @settle _ w verdict final files' here settled =>
    cases last.1.symm.trans (versionOf?_of_here here)
    cases (State.phase?_setPhase_self last.1 _).symm.trans now
    cases final with
    | some reason => trivial
    | none =>
      cases verdict with
      | some reason =>
        rw [settle_failure] at settled
        cases settled
      | none =>
        obtain ⟨written, returned, staged⟩ := cached.staged last (phase?_of_here here)
        have lacking : Lacking setup v s.files := inv.arrived reach last (phase?_of_here here)
        exact ⟨written, returned.concat _, settle_delivers (fetching.downloads last.1)
          (cached.ready last.1).1 lacking staged settled⟩

theorem Deliveries.step (inv : Deliveries setup files actions s) (h : Transition setup s a t) :
    Deliveries setup files (actions ++ [a]) t where
  keeps q directory := h.keeps fetching cached q (inv.keeps q directory)
  arrived := by
    intro d v phase' reach last' now
    -- either the download was there before, or this step starts it
    rcases h.fresh last'.1 with version | ⟨⟨c, here⟩, lacking, prepared, running⟩
    · have last : s.IsLast d v :=
        ⟨version, fun e lt found => last'.2 e lt (h.versionOf?_kept found)⟩
      obtain ⟨phase, here⟩ := versionOf?_eq_some_iff.1 version
      by_cases settled : a = .settle d
      · subst settled
        exact arrived_of_settle fetching cached inv reach h last now
      · have kept := h.binary_kept fetching cached version fun e same version' => by
          subst same
          exact settled (congrArg _ (h.settles fetching version' last).1)
        exact ((inv.arrived reach last (phase?_of_here here)).concat kept a).next
          (h.next_phase settled (phase?_of_here here) now)
    · cases now.symm.trans running
      exact lacking_of_start cached inv (fetching.callers here) reach lacking prepared
  looking := by
    intro c v reach here
    rcases h.looking here with old | ⟨d, waits, sent, downloads, same⟩
    · obtain ⟨d, last, received, delivered⟩ := inv.looking reach old
      have unsettled (e : Nat) (same : a = .settle e) : s.versionOf? e ≠ some v := by
        intro version
        subst same
        obtain ⟨-, verdict, returned⟩ := h.settles fetching version last
        cases received.symm.trans returned
      have last' := h.isLast_kept fetching.turns old last
      obtain ⟨phase', now⟩ := versionOf?_eq_some_iff.1 last'.1
      have kept := h.binary_kept fetching cached last.1 unsettled
      refine ⟨d, last', ?_, delivered.concat kept a⟩
      have other : a ≠ .settle d := fun same => unsettled d same last.1
      rcases h.next_phase other received (phase?_of_here now) with
        rfl | ⟨ended, -⟩ | ⟨_, running, -⟩ | ⟨_, settled, -⟩
      · exact phase?_of_here now
      · cases ended
      · cases running
      · cases settled
    · have version := fetching.awaited.waiting waits
      have last := fetching.owned.isLast (here_of_phase? version sent) rfl
      refine ⟨d, (isLast_iff (versionOf?_of_setPhase downloads)).2 last, ?_, ?_⟩
      · rw [State.phase?, downloads]
        exact State.phase?_setPhase_self version _
      · exact Delivered.concat (inv.arrived reach last sent) (by rw [same]) a

end

theorem deliveries_of_run (releases : ∀ a ∈ actions, ∀ v ∈ a.version?, v.IsRelease)
    (run : runActions setup (.start files) actions = some t) : Deliveries setup files actions t := by
  suffices all : Fetching t ∧ Cached setup files actions t ∧ Deliveries setup files actions t from
    all.2.2
  refine runActions_induction
    (P := fun actions s => Fetching s ∧ Cached setup files actions s ∧
      Deliveries setup files actions s) ?_ ?_ releases run
  · exact ⟨.start files, .start setup files, .start setup files⟩
  · intro actions a last t _ ⟨fetching, cached, inv⟩ release moved
    exact ⟨moved.fetching release fetching, cached.step fetching moved,
      inv.step fetching cached moved⟩

end ContractBuild.Registry
