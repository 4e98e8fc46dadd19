import ContractBuild.Registry.Step

/-!
What one step of a registry can do, as a relation with a constructor for each of the moves. A
constructor names what has to hold before the move and gives the whole state behind it, so an
invariant is shown move by move and the step function is opened only once, here.
-/

namespace ContractBuild.Registry

variable {μ : Type}

def Phase.isOver : Phase → Bool
  | .received | .dead => true
  | _ => false

def Phase.isUnsent : Phase → Bool
  | .running | .returned _ | .settled _ => true
  | _ => false

inductive Transition (setup : Setup) (s : State μ) : Action μ → State μ → Prop
  | get (v : Version) :
      Transition setup s (.get v) { s with callers := s.callers ++ [⟨v, .lookup⟩] }
  | insert (v : Version) (m : μ) :
      Transition setup s (.insert v m) { s with callers := s.callers ++ [⟨v, .adopt m⟩] }
  | hit {c v m} (here : s.callers[c]? = some ⟨v, .lookup⟩) (found : s.module? v = some m) :
      Transition setup s (.advance c) (s.move c v (.done (.ok m)))
  | miss {c v} (here : s.callers[c]? = some ⟨v, .lookup⟩) (absent : s.module? v = none) :
      Transition setup s (.advance c) (s.move c v .queue)
  | turn {c v} (here : s.callers[c]? = some ⟨v, .queue⟩) (free : Table.find? v s.turns = none) :
      Transition setup s (.advance c)
        ({ s with turns := Table.put v c s.turns }.move c v .recheck)
  | hitBehind {c v m} (here : s.callers[c]? = some ⟨v, .recheck⟩)
      (found : s.module? v = some m) :
      Transition setup s (.advance c) (s.move c v (.leave (.ok m)))
  | missBehind {c v} (here : s.callers[c]? = some ⟨v, .recheck⟩)
      (absent : s.module? v = none) :
      Transition setup s (.advance c) (s.move c v .inspect)
  | takeOver {c v d} (here : s.callers[c]? = some ⟨v, .inspect⟩)
      (left : Table.find? v s.pending = some d) :
      Transition setup s (.advance c)
        ({ s with pending := Table.remove v s.pending }.move c v (.waiting d))
  | cached {c v} (here : s.callers[c]? = some ⟨v, .inspect⟩)
      (free : Table.find? v s.pending = none) (held : s.files.holds (setup.binary v) = true) :
      Transition setup s (.advance c) (s.move c v .load)
  | start {c v files} (here : s.callers[c]? = some ⟨v, .inspect⟩)
      (free : Table.find? v s.pending = none) (lacking : s.files.holds (setup.binary v) = false)
      (downloads : setup.downloads = true) (prepared : prepare setup v s.files = (.ok (), files)) :
      Transition setup s (.advance c)
        (({ s with files, downloads := s.downloads ++ [Download.mk v .running] }.report
          (.installStarted v)).move c v (.waiting s.downloads.length))
  | unprepared {c v files failure} (here : s.callers[c]? = some ⟨v, .inspect⟩)
      (free : Table.find? v s.pending = none) (lacking : s.files.holds (setup.binary v) = false)
      (downloads : setup.downloads = true)
      (failed : prepare setup v s.files = (.error failure, files)) :
      Transition setup s (.advance c) ({ s with files }.move c v (.leave (.error failure)))
  | offline {c v} (here : s.callers[c]? = some ⟨v, .inspect⟩)
      (free : Table.find? v s.pending = none) (lacking : s.files.holds (setup.binary v) = false)
      (offline : setup.downloads = false) :
      Transition setup s (.advance c)
        (s.move c v (.leave (.error (.configuration (.notInstalled v (setup.binary v))))))
  | installed {c v d} (here : s.callers[c]? = some ⟨v, .waiting d⟩)
      (sent : s.phase? d = some (.sent none)) :
      Transition setup s (.advance c)
        (((s.setPhase d .received).report (.installSucceeded v)).move c v .confirm)
  | failed {c v d reason} (here : s.callers[c]? = some ⟨v, .waiting d⟩)
      (sent : s.phase? d = some (.sent (some reason))) :
      Transition setup s (.advance c)
        ((s.setPhase d .received).failWait c v (.failed v reason))
  | orphaned {c v d} (here : s.callers[c]? = some ⟨v, .waiting d⟩)
      (dead : s.phase? d = some .dead) :
      Transition setup s (.advance c) (s.failWait c v (.failed v deadWorker))
  | confirmed {c v} (here : s.callers[c]? = some ⟨v, .confirm⟩)
      (held : s.files.holds (setup.binary v) = true) :
      Transition setup s (.advance c) (s.move c v .load)
  | vanished {c v} (here : s.callers[c]? = some ⟨v, .confirm⟩)
      (lacking : s.files.holds (setup.binary v) = false) :
      Transition setup s (.advance c)
        (s.move c v (.leave (.error (.download (.missing v (setup.binary v))))))
  | adoptFirst {c v m} (here : s.callers[c]? = some ⟨v, .adopt m⟩) (first : s.adopted = false) :
      Transition setup s (.advance c)
        (({ s with adopted := true }.mark (.uninstalled m)).move c v (.publish m))
  | adoptLater {c v m} (here : s.callers[c]? = some ⟨v, .adopt m⟩) (later : s.adopted = true) :
      Transition setup s (.advance c) (s.move c v (.publish m))
  | publish {c v m} (here : s.callers[c]? = some ⟨v, .publish m⟩) :
      Transition setup s (.advance c)
        ({ s with modules := Table.put v m s.modules }.move c v (.leave (.ok m)))
  | leave {c v result} (here : s.callers[c]? = some ⟨v, .leave result⟩) :
      Transition setup s (.advance c)
        ({ s with turns := if Table.find? v s.turns = some c then Table.remove v s.turns
                           else s.turns }.move c v (.done result))
  | giveUp {c v d phase} (here : s.callers[c]? = some ⟨v, .waiting d⟩)
      (found : s.phase? d = some phase) (unsent : phase.isUnsent = true) :
      Transition setup s (.giveUp c)
        ({ s with pending := Table.put v d s.pending }.failWait c v (.timeout v setup.timeout))
  | loaded {c v m} (here : s.callers[c]? = some ⟨v, .load⟩) :
      Transition setup s (.loaded c (.ok m)) ((s.mark (.loaded v (.ok m))).move c v (.adopt m))
  | unloadable {c v failure} (here : s.callers[c]? = some ⟨v, .load⟩) :
      Transition setup s (.loaded c (.error failure))
        ((s.mark (.loaded v (.error failure))).move c v (.leave (.error failure)))
  | write {d v content files} (here : s.downloads[d]? = some ⟨v, .running⟩)
      (written : s.files.write (setup.staging v) content = .ok files) :
      Transition setup s (.write d content) { s with files }
  | unwritable {d v content fault} (here : s.downloads[d]? = some ⟨v, .running⟩)
      (failed : s.files.write (setup.staging v) content = .error fault) :
      Transition setup s (.write d content) (s.setPhase d (.returned (some fault.message)))
  | finish {d v verdict} (here : s.downloads[d]? = some ⟨v, .running⟩) :
      Transition setup s (.finish d verdict) (s.setPhase d (.returned verdict))
  | die {d v} (here : s.downloads[d]? = some ⟨v, .running⟩) :
      Transition setup s (.die d) (s.setPhase d .dead)
  | settle {d v verdict final files} (here : s.downloads[d]? = some ⟨v, .returned verdict⟩)
      (settled : settle setup v verdict s.files = (final, files)) :
      Transition setup s (.settle d) ({ s with files }.setPhase d (.settled final))
  | send {d v verdict} (here : s.downloads[d]? = some ⟨v, .settled verdict⟩) :
      Transition setup s (.send d) (s.setPhase d (.sent verdict))

theorem transition_of_inspect {setup : Setup} {s : State μ} {c : Nat} {v : Version}
    (here : s.callers[c]? = some ⟨v, .inspect⟩) :
    Transition setup s (.advance c) (inspect setup s c v) := by
  unfold inspect
  split
  · exact .takeOver here ‹_›
  · rename_i free
    split
    · exact .cached here free ‹_›
    · rename_i lacking
      rw [Bool.not_eq_true] at lacking
      split
      · split
        · exact .unprepared here free lacking ‹_› ‹_›
        · exact .start here free lacking ‹_› ‹_›
      · rename_i offline
        exact .offline here free lacking (by simpa using offline)

theorem transition_of_receive {setup : Setup} {s t : State μ} {c d : Nat} {v : Version}
    (here : s.callers[c]? = some ⟨v, .waiting d⟩) (h : receive s c v d = some t) :
    Transition setup s (.advance c) t := by
  unfold receive at h
  split at h
  · cases h
    exact .installed here ‹_›
  · cases h
    exact .failed here ‹_›
  · cases h
    exact .orphaned here ‹_›
  · cases h

theorem transition_of_advance {setup : Setup} {s t : State μ} {c : Nat}
    (h : advance setup s c = some t) : Transition setup s (.advance c) t := by
  unfold advance at h
  split at h
  · cases h
  rename_i v stage here
  cases stage with
  | lookup =>
    cases h
    split
    · exact .hit here ‹_›
    · exact .miss here ‹_›
  | queue =>
    simp only at h
    split at h
    · cases h
    · cases h
      exact .turn here ‹_›
  | recheck =>
    cases h
    split
    · exact .hitBehind here ‹_›
    · exact .missBehind here ‹_›
  | inspect =>
    cases h
    exact transition_of_inspect here
  | waiting d => exact transition_of_receive here h
  | confirm =>
    cases h
    split
    · exact .confirmed here ‹_›
    · rename_i lacking
      exact .vanished here (by simpa using lacking)
  | load => cases h
  | adopt m =>
    cases h
    split
    · exact .adoptLater here ‹_›
    · rename_i first
      exact .adoptFirst here (by simpa using first)
  | publish m =>
    cases h
    exact .publish here
  | leave result =>
    cases h
    exact .leave here
  | done result => cases h

theorem transition_of_giveUp {setup : Setup} {s t : State μ} {c : Nat}
    (h : giveUp setup s c = some t) : Transition setup s (.giveUp c) t := by
  unfold giveUp at h
  split at h
  · rename_i v d here
    split at h <;> cases h
    all_goals exact .giveUp here ‹_› rfl
  · cases h

theorem transition_of_loaded {setup : Setup} {s t : State μ} {c : Nat}
    {result : Except Failure μ} (h : loaded s c result = some t) :
    Transition setup s (.loaded c result) t := by
  unfold loaded at h
  split at h
  · rename_i v here
    cases h
    cases result with
    | ok m => exact .loaded here
    | error failure => exact .unloadable here
  · cases h

theorem transition_of_step {setup : Setup} {s t : State μ} {a : Action μ}
    (h : step setup s a = some t) : Transition setup s a t := by
  cases a with
  | get v =>
    cases h
    exact .get v
  | insert v m =>
    cases h
    exact .insert v m
  | advance c => exact transition_of_advance h
  | giveUp c => exact transition_of_giveUp h
  | loaded c result => exact transition_of_loaded h
  | write d content =>
    simp only [step, work] at h
    split at h
    · rename_i v here
      cases h
      split
      · exact .write here ‹_›
      · exact .unwritable here ‹_›
    · cases h
  | finish d verdict =>
    simp only [step, work] at h
    split at h
    · cases h
      exact .finish ‹_›
    · cases h
  | die d =>
    simp only [step, work] at h
    split at h
    · cases h
      exact .die ‹_›
    · cases h
  | settle d =>
    simp only [step, work] at h
    split at h
    · cases h
      exact .settle ‹_› rfl
    · cases h
  | send d =>
    simp only [step, work] at h
    split at h
    · cases h
      exact .send ‹_›
    · cases h

end ContractBuild.Registry
