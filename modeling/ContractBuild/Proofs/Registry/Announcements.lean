import ContractBuild.Proofs.Registry.Attempts
import ContractBuild.Proofs.Registry.Runs

/-!
# What is reported of installations

Reports on a version come in rounds. A round begins when the downloader is called, goes on while
callers lose their patience with this download, and ends with the one caller that receives its end.
The caller that reports has the turn at the version, and a round is under way exactly while a
download of the version is waited for or left behind; so the next round begins behind the end of the
last one, whichever callers the reports come from.
-/

namespace ContractBuild

def Event.installs? : Event → Option Version
  | installStarted v | installSucceeded v | installFailed v _ => some v
  | spawned _ _ | finished _ _ | unresolvedImports _ => none

namespace Registry

variable {μ : Type} {setup : Setup} {s t : State μ} {a : Action μ} {c d : Nat} {v w : Version}
  {e : Event}

def Setup.timedOut (setup : Setup) (v : Version) : Event :=
  .installFailed v (DownloadFault.timeout v setup.timeout).message

/-- The reports that a caller makes of the end of a download. -/
inductive Ends (v : Version) : Event → Prop
  | succeeded : Ends v (.installSucceeded v)
  | failed (reason : String) : Ends v (.installFailed v (DownloadFault.failed v reason).message)

/-- All reports on one download: its start, callers that did not wait, and its end. -/
inductive Round (setup : Setup) (v : Version) : List Event → Prop
  | mk (n : Nat) {e : Event} (ends : Ends v e) :
      Round setup v (.installStarted v :: List.replicate n (setup.timedOut v) ++ [e])

/-- Reports on a version in their order: on how many downloads, and whether the last one of them
has not ended. -/
inductive Announced (setup : Setup) (v : Version) : Nat → Bool → List Event → Prop
  | none : Announced setup v 0 false []
  | started {n : Nat} {es : List Event} (told : Announced setup v n false es) :
      Announced setup v (n + 1) true (es ++ [.installStarted v])
  | timedOut {n : Nat} {es : List Event} (told : Announced setup v n true es) :
      Announced setup v n true (es ++ [setup.timedOut v])
  | ended {n : Nat} {es : List Event} {e : Event} (told : Announced setup v n true es)
      (ends : Ends v e) : Announced setup v n false (es ++ [e])

theorem failed_message_ne (reason : String) (limit : Duration) :
    (DownloadFault.failed v reason).message ≠ (DownloadFault.timeout v limit).message := by
  intro same
  have first := congrArg (fun s : String => s.toList.head?) same
  have failed : "failed to download solc ".toList.head? = some 'f' := by decide
  have timeout : "timed out after ".toList.head? = some 't' := by decide
  unfold DownloadFault.message at first
  simp only [toString, String.toList_append, List.append_assoc, List.head?_append, failed, timeout,
    Option.some_or] at first
  exact absurd first (by decide)

theorem Ends.ne_timedOut (ends : Ends v e) : e ≠ setup.timedOut v := by
  cases ends with
  | succeeded => exact nofun
  | failed reason =>
    intro eq
    rw [Setup.timedOut, Event.installFailed.injEq] at eq
    exact failed_message_ne reason _ eq.2

theorem Ends.installs? (ends : Ends v e) : e.installs? = some v := by
  cases ends with
  | succeeded | failed => rfl

theorem Announced.rounds {n : Nat} {busy : Bool} {es : List Event}
    (told : Announced setup v n busy es) :
    ∃ (rounds : List (List Event)) (current : List Event),
      es = rounds.flatten ++ current ∧ (∀ r ∈ rounds, Round setup v r) ∧
      if busy then rounds.length + 1 = n ∧
        ∃ k, current = .installStarted v :: List.replicate k (setup.timedOut v)
      else rounds.length = n ∧ current = [] := by
  induction told with
  | none => exact ⟨[], [], rfl, nofun, rfl, rfl⟩
  | started _ ih =>
    obtain ⟨rounds, current, rfl, full, length, rfl⟩ := ih
    exact ⟨rounds, [.installStarted v], by rw [List.append_nil], full, by rw [length], 0, rfl⟩
  | timedOut _ ih =>
    obtain ⟨rounds, current, rfl, full, length, k, rfl⟩ := ih
    refine ⟨rounds, _, List.append_assoc .., full, length, k + 1, ?_⟩
    rw [List.replicate_succ', List.cons_append]
  | @ended n es e _ ends ih =>
    obtain ⟨rounds, current, rfl, full, length, k, rfl⟩ := ih
    refine ⟨rounds ++ [.installStarted v :: List.replicate k (setup.timedOut v) ++ [e]], [],
      by simp, ?_, by simpa using length, rfl⟩
    rw [List.forall_mem_append, List.forall_mem_singleton]
    exact ⟨full, .mk k ends⟩

/-- A download of the version has not been received: it is left behind, or a caller waits. -/
def State.Awaits (s : State μ) (v : Version) : Prop :=
  (Table.find? v s.pending).isSome = true ∨ ∃ c d : Nat, s.callers[c]? = some ⟨v, .waiting d⟩

section

variable {x y : Stage μ}

theorem awaits_of_waiting (here : s.callers[c]? = some ⟨v, .waiting d⟩) : s.Awaits v :=
  .inr ⟨c, d, here⟩

theorem awaits_of_set (here : s.callers[c]? = some ⟨v, x⟩)
    (moved : t.callers = s.callers.set c ⟨v, y⟩) (pending : t.pending = s.pending)
    (before : x.waitsFor? = none) (behind : y.waitsFor? = none) :
    t.Awaits w ↔ s.Awaits w := by
  rw [State.Awaits, State.Awaits, pending]
  refine or_congr_right ⟨?_, ?_⟩
  · rintro ⟨i, d, waits⟩
    rcases caller_of_set here moved waits with ⟨-, eq⟩ | ⟨-, old⟩
    · cases eq
      cases behind
    · exact ⟨i, d, old⟩
  · rintro ⟨i, d, waits⟩
    have other : i ≠ c := by
      intro eq
      subst eq
      rw [here] at waits
      cases waits
      cases before
    exact ⟨i, d, (getElem?_callers_set_ne other moved).trans waits⟩

theorem awaits_of_append (came : t.callers = s.callers ++ [⟨v, x⟩])
    (pending : t.pending = s.pending) (behind : x.waitsFor? = none) :
    t.Awaits w ↔ s.Awaits w := by
  rw [State.Awaits, State.Awaits, pending]
  refine or_congr_right ⟨?_, ?_⟩
  · rintro ⟨i, d, waits⟩
    rcases caller_of_append came waits with ⟨-, eq⟩ | old
    · cases eq
      cases behind
    · exact ⟨i, d, old⟩
  · rintro ⟨i, d, waits⟩
    refine ⟨i, d, ?_⟩
    rw [came, List.getElem?_append_left (List.getElem?_eq_some_iff.1 waits).1, waits]

theorem awaits_of_ne (here : s.callers[c]? = some ⟨v, x⟩)
    (moved : t.callers = s.callers.set c ⟨v, y⟩)
    (pending : Table.find? w t.pending = Table.find? w s.pending) (ne : w ≠ v) :
    t.Awaits w ↔ s.Awaits w := by
  rw [State.Awaits, State.Awaits, pending]
  refine or_congr_right (exists_congr fun i => exists_congr fun d => ?_)
  by_cases eq : i = c
  · subst eq
    rw [getElem?_callers_set here moved, here]
    refine iff_of_false ?_ ?_
    · intro eq
      cases eq
      exact ne rfl
    · intro eq
      cases eq
      exact ne rfl
  · rw [getElem?_callers_set_ne eq moved]

theorem not_awaits_of_received (turns : HaveTurn Stage.isFetching s) (owned : Owned s)
    (here : s.callers[c]? = some ⟨v, .waiting d⟩) (moved : t.callers = s.callers.set c ⟨v, y⟩)
    (pending : t.pending = s.pending) (behind : y.waitsFor? = none) : ¬ t.Awaits v := by
  rintro (left | ⟨i, e, waits⟩)
  · rw [pending, owned.single here] at left
    cases left
  · rcases caller_of_set here moved waits with ⟨-, eq⟩ | ⟨other, old⟩
    · cases eq
      cases behind
    · exact other (turns.unique here rfl old rfl)

theorem not_awaits_of_free (turns : HaveTurn Stage.isFetching s)
    (here : s.callers[c]? = some ⟨v, .inspect⟩) (free : Table.find? v s.pending = none) :
    ¬ s.Awaits v := by
  rintro (left | ⟨i, e, waits⟩)
  · rw [free] at left
    cases left
  · have same := turns.unique here rfl waits rfl
    subst same
    rw [here] at waits
    cases waits

end

def Mark.event? : Mark μ → Option Event
  | .event e => some e
  | .loaded _ _ | .uninstalled _ => none

def State.installations (s : State μ) (v : Version) : List Event :=
  (s.history.filterMap Mark.event?).filter fun e => e.installs? = some v

def State.calls (s : State μ) (v : Version) : Nat := s.downloads.countP fun job => job.version = v

theorem installations_of_mark {m : Mark μ} (told : t.history = s.history ++ [m])
    (other : m.event? = none) (w : Version) : t.installations w = s.installations w := by
  rw [State.installations, State.installations, told, List.filterMap_append,
    List.filterMap_cons_none other, List.filterMap_nil, List.append_nil]

theorem installations_of_event (told : t.history = s.history ++ [.event e])
    (about : e.installs? = some v) (w : Version) :
    t.installations w = s.installations w ++ if w = v then [e] else [] := by
  have one : [(.event e : Mark μ)].filterMap Mark.event? = [e] := rfl
  rw [State.installations, State.installations, told, List.filterMap_append, one,
    List.filter_append, List.filter_singleton, about]
  by_cases same : w = v
  · simp [same]
  · simp [same, Ne.symm same]

/-- What a step reports of installations, and what becomes of the downloads that are awaited. -/
inductive Reported (setup : Setup) (s t : State μ) : Prop
  | nothing (told : ∀ w, t.installations w = s.installations w)
      (calls : ∀ w, t.calls w = s.calls w) (awaits : ∀ w, t.Awaits w ↔ s.Awaits w)
  | started (v : Version) (idle : ¬ s.Awaits v)
      (told : t.history = s.history ++ [.event (.installStarted v)])
      (called : t.downloads = s.downloads ++ [⟨v, .running⟩]) (busy : t.Awaits v)
      (awaits : ∀ w, w ≠ v → (t.Awaits w ↔ s.Awaits w))
  | timedOut (v : Version) (busy : s.Awaits v)
      (told : t.history = s.history ++ [.event (setup.timedOut v)])
      (calls : ∀ w, t.calls w = s.calls w) (still : t.Awaits v)
      (awaits : ∀ w, w ≠ v → (t.Awaits w ↔ s.Awaits w))
  | ended (v : Version) {e : Event} (ends : Ends v e) (busy : s.Awaits v)
      (told : t.history = s.history ++ [.event e]) (calls : ∀ w, t.calls w = s.calls w)
      (idle : ¬ t.Awaits v) (awaits : ∀ w, w ≠ v → (t.Awaits w ↔ s.Awaits w))

theorem calls_setPhase (s : State μ) (d : Nat) (phase : Phase) (w : Version) :
    (s.setPhase d phase).calls w = s.calls w := by
  have versions (downloads : List Download) :
      downloads.countP (fun job => job.version = w) = (downloads.map Download.version).count w := by
    rw [List.count, List.countP_map]
    exact List.countP_congr fun job _ => by simp
  have same : (s.setPhase d phase).downloads.map Download.version =
      s.downloads.map Download.version := by
    refine List.ext_getElem? fun e => ?_
    have kept := State.versionOf?_setPhase s d phase e
    rwa [State.versionOf?, State.versionOf?, ← List.getElem?_map, ← List.getElem?_map] at kept
  rw [State.calls, State.calls, versions, versions, same]

theorem calls_append (called : t.downloads = s.downloads ++ [⟨v, .running⟩]) (w : Version) :
    t.calls w = s.calls w + if w = v then 1 else 0 := by
  rw [State.calls, State.calls, called, List.countP_append, List.countP_singleton]
  simp [eq_comm]

theorem Transition.reported (h : Transition setup s a t) (turns : HaveTurn Stage.isFetching s)
    (owned : Owned s) : Reported setup s t := by
  have same (told : t.history = s.history) (w : Version) : t.installations w = s.installations w := by
    rw [State.installations, State.installations, told]
  have other {m : Mark μ} (told : t.history = s.history ++ [m]) (quiet : m.event? = none)
      (w : Version) : t.installations w = s.installations w := installations_of_mark told quiet w
  cases h with
  | get | insert =>
    exact .nothing (same rfl) (fun _ => rfl) fun _ => awaits_of_append rfl rfl rfl
  | hit here | miss here | turn here | hitBehind here | missBehind here | cached here
  | unprepared here | offline here | confirmed here | vanished here | adoptLater here
  | publish here | leave here =>
    exact .nothing (same rfl) (fun _ => rfl) fun _ => awaits_of_set here rfl rfl rfl rfl
  | adoptFirst here | loaded here | unloadable here =>
    exact .nothing (other rfl rfl) (fun _ => rfl) fun _ => awaits_of_set here rfl rfl rfl rfl
  | @takeOver c v d here left =>
    refine .nothing (same rfl) (fun _ => rfl) fun w => ?_
    by_cases eq : w = v
    · subst eq
      exact iff_of_true (awaits_of_waiting (getElem?_callers_set here rfl)) (.inl (by rw [left]; rfl))
    · exact awaits_of_ne here rfl (Table.find?_remove_ne eq ..) eq
  | start here free =>
    exact .started _ (not_awaits_of_free turns here free) rfl rfl
      (awaits_of_waiting (getElem?_callers_set here rfl)) fun _ ne => awaits_of_ne here rfl rfl ne
  | installed here =>
    exact .ended _ .succeeded (awaits_of_waiting here) rfl (calls_setPhase s _ _)
      (not_awaits_of_received turns owned here rfl rfl rfl) fun _ ne => awaits_of_ne here rfl rfl ne
  | failed here =>
    exact .ended _ (.failed _) (awaits_of_waiting here) rfl (calls_setPhase s _ _)
      (not_awaits_of_received turns owned here rfl rfl rfl) fun _ ne => awaits_of_ne here rfl rfl ne
  | orphaned here =>
    exact .ended _ (.failed _) (awaits_of_waiting here) rfl (fun _ => rfl)
      (not_awaits_of_received turns owned here rfl rfl rfl) fun _ ne => awaits_of_ne here rfl rfl ne
  | @giveUp c v d _ here =>
    exact .timedOut v (awaits_of_waiting here) rfl (fun _ => rfl)
      (.inl (by rw [State.failWait]; exact Option.isSome_iff_exists.2 ⟨d, Table.find?_put_self ..⟩))
      fun _ ne => awaits_of_ne here rfl (Table.find?_put_ne ne ..) ne
  | write => exact .nothing (same rfl) (fun _ => rfl) fun _ => .rfl
  | unwritable | finish | die | settle | send =>
    exact .nothing (same rfl) (calls_setPhase s _ _) fun _ => .rfl

/-- The reports are rounds, and the last of them is under way while a download is awaited. -/
structure Tracked (setup : Setup) (s : State μ) : Prop where
  turns : HaveTurn Stage.isFetching s
  owned : Owned s
  awaited : Awaited s
  told : ∀ v, ∃ busy, Announced setup v (s.calls v) busy (s.installations v) ∧
    (busy = true ↔ s.Awaits v)

theorem Tracked.start (setup : Setup) (files : FileTree) :
    Tracked setup (State.start files : State μ) where
  turns := (Fetching.start files).turns
  owned := .start files
  awaited := .start files
  told := by
    intro v
    refine ⟨false, .none, nofun, ?_⟩
    rintro (left | ⟨c, d, waits⟩)
    · cases left
    · simp [State.start] at waits

theorem Transition.tracked (h : Transition setup s a t) (inv : Tracked setup s) :
    Tracked setup t where
  turns := h.fetching_haveTurn inv.turns
  owned := h.owned inv.turns inv.owned
  awaited := h.awaited inv.awaited
  told := by
    intro w
    obtain ⟨busy, told, iff⟩ := inv.told w
    cases h.reported inv.turns inv.owned with
    | nothing same calls awaits =>
      rw [same, calls, awaits]
      exact ⟨busy, told, iff⟩
    | started v idle said called busy' awaits =>
      rw [installations_of_event said rfl, calls_append called]
      by_cases eq : w = v
      · subst eq
        rw [if_pos rfl, if_pos rfl]
        have free : busy = false := by rwa [← Bool.not_eq_true, iff]
        subst free
        exact ⟨true, .started told, iff_of_true rfl busy'⟩
      · rw [if_neg eq, if_neg eq, List.append_nil, Nat.add_zero, awaits w eq]
        exact ⟨busy, told, iff⟩
    | timedOut v busy' said calls still awaits =>
      rw [installations_of_event said rfl, calls]
      by_cases eq : w = v
      · subst eq
        rw [if_pos rfl]
        obtain rfl := iff.2 busy'
        exact ⟨true, .timedOut told, iff_of_true rfl still⟩
      · rw [if_neg eq, List.append_nil, awaits w eq]
        exact ⟨busy, told, iff⟩
    | ended v ends busy' said calls idle awaits =>
      have about := ends.installs?
      rw [installations_of_event said about, calls]
      by_cases eq : w = v
      · subst eq
        rw [if_pos rfl]
        obtain rfl := iff.2 busy'
        exact ⟨false, .ended told ends, iff_of_false nofun idle⟩
      · rw [if_neg eq, List.append_nil, awaits w eq]
        exact ⟨busy, told, iff⟩

theorem tracked_of_run {files : FileTree} {actions : List (Action μ)}
    (run : runActions setup (State.start files) actions = some t) : Tracked setup t :=
  runActions_induction (P := fun _ s => Tracked setup s) (Q := fun _ => True) (.start setup files)
    (fun _ _ _ _ _ inv _ moved => moved.tracked inv) (fun _ _ => trivial) run

theorem Transition.started_iff (h : Transition setup s a t) :
    t.history = s.history ++ [.event (.installStarted v)] ↔
      t.downloads = s.downloads ++ [⟨v, .running⟩] := by
  have silent {m : Mark μ} (told : s.history = s.history ++ [m]) : False := by simp at told
  have uncalled {job : Download} (called : s.downloads = s.downloads ++ [job]) : False := by
    simp at called
  have unchanged {d : Nat} {phase : Phase} {job : Download}
      (called : (s.setPhase d phase).downloads = s.downloads ++ [job]) : False := by
    have length := congrArg List.length called
    simp [State.setPhase] at length
  cases h with
  | start =>
    change s.history ++ [_] = _ ↔ s.downloads ++ [_] = _
    simp
  | giveUp | orphaned | adoptFirst | loaded | unloadable =>
    exact iff_of_false (fun told => by cases List.append_cancel_left told) uncalled
  | installed | failed =>
    exact iff_of_false (fun told => by cases List.append_cancel_left told) unchanged
  | unwritable | finish | die | settle | send => exact iff_of_false silent unchanged
  | get | insert | hit | miss | turn | hitBehind | missBehind | takeOver | cached | unprepared
  | offline | confirmed | vanished | adoptLater | publish | leave | write =>
    exact iff_of_false silent uncalled

theorem Transition.eq_of_succeeded (h : Transition setup s a t)
    (told : t.history = s.history ++ [.event (.installSucceeded v)]) :
    ∃ c d : Nat, a = .advance c ∧ s.callers[c]? = some ⟨v, .waiting d⟩ ∧
      s.phase? d = some (.sent none) ∧
      t = ((s.setPhase d .received).report (.installSucceeded v)).move c v .confirm := by
  have silent {m : Mark μ} (told : s.history = s.history ++ [m]) : False := by simp at told
  cases h with
  | installed here sent =>
    cases List.append_cancel_left told
    exact ⟨_, _, rfl, here, sent, rfl⟩
  | start | giveUp | failed | orphaned | adoptFirst | loaded | unloadable =>
    cases List.append_cancel_left told
  | get | insert | hit | miss | turn | hitBehind | missBehind | takeOver | cached | unprepared
  | offline | confirmed | vanished | adoptLater | publish | leave | write | unwritable | finish
  | die | settle | send => exact (silent told).elim

theorem Transition.of_succeeded (h : Transition setup s a t) (inv : Tracked setup s)
    (told : t.history = s.history ++ [.event (.installSucceeded v)]) :
    ∃ d, s.IsLast d v ∧ s.phase? d = some (.sent none) ∧ t.phase? d = some .received := by
  obtain ⟨c, d, -, here, sent, rfl⟩ := h.eq_of_succeeded told
  have version := inv.awaited.waiting here
  exact ⟨d, inv.owned.isLast (here_of_phase? version sent) rfl, sent,
    State.phase?_setPhase_self version .received⟩

/-- The reports on a version are rounds, each complete but for the last one, which may end with its
start or with callers that did not wait. There is one round for each call of the downloader, its
start is reported with this call, and its success takes the result of the last download. -/
theorem installations_take_turns (setup : Setup) (files : FileTree) {actions : List (Action μ)}
    {t : State μ} (run : runActions setup (.start files) actions = some t) :
    (∀ v, ∃ (rounds : List (List Event)) (current : List Event),
      t.installations v = rounds.flatten ++ current ∧ (∀ r ∈ rounds, Round setup v r) ∧
      (t.calls v = rounds.length ∧ current = [] ∨
        t.calls v = rounds.length + 1 ∧
          ∃ n, current = .installStarted v :: List.replicate n (setup.timedOut v))) ∧
    (∀ v e, Ends v e → e ≠ setup.timedOut v) ∧
    ∀ a u, step setup t a = some u → ∀ v,
      (u.history = t.history ++ [.event (.installStarted v)] ↔
        u.downloads = t.downloads ++ [⟨v, .running⟩]) ∧
      (u.history = t.history ++ [.event (.installSucceeded v)] →
        ∃ d, t.IsLast d v ∧ t.phase? d = some (.sent none) ∧ u.phase? d = some .received) := by
  have inv := tracked_of_run run
  refine ⟨fun v => ?_, fun _ _ => Ends.ne_timedOut, fun a u moved v =>
    ⟨(transition_of_step moved).started_iff, (transition_of_step moved).of_succeeded inv⟩⟩
  obtain ⟨busy, told, -⟩ := inv.told v
  obtain ⟨rounds, current, split, full, last⟩ := told.rounds
  refine ⟨rounds, current, split, full, ?_⟩
  cases busy with
  | false => exact .inl ⟨last.1.symm, last.2⟩
  | true => exact .inr ⟨last.1.symm, last.2⟩

def quarrel : List (Action Nat) :=
  let v := Version.release 0 5 4
  let w := Version.release 0 5 7
  [.get v, .advance 0, .advance 0, .advance 0, .advance 0, .giveUp 0, .advance 0, .insert v 8,
    .advance 1, .advance 1, .advance 1, .get w, .advance 2, .advance 2, .advance 2, .advance 2,
    .die 1, .get w, .advance 3, .advance 2, .advance 2, .advance 3, .advance 3, .advance 3,
    .write 2 [1], .finish 2 none, .settle 2, .send 2, .advance 3]

theorem quarrel_isSome :
    (runActions handedOverSetup (.start .empty) quarrel).isSome = true := by
  decide +kernel

theorem installations_take_turns_quarrel : ∃ t,
    runActions handedOverSetup (.start .empty) quarrel = some t ∧
      t.installations (.release 0 5 4) =
        [.installStarted (.release 0 5 4), handedOverSetup.timedOut (.release 0 5 4)] ∧
      t.installations (.release 0 5 7) =
        [.installStarted (.release 0 5 7),
          .installFailed (.release 0 5 7)
            "failed to download solc 0.5.7: download task ended without a result",
          .installStarted (.release 0 5 7), .installSucceeded (.release 0 5 7)] ∧
      t.calls (.release 0 5 7) = 2 ∧
      ∃ (rounds : List (List Event)) (current : List Event),
        t.installations (.release 0 5 7) = rounds.flatten ++ current ∧
        (∀ r ∈ rounds, Round handedOverSetup (.release 0 5 7) r) ∧ 1 ≤ rounds.length := by
  have run := (Option.some_get quarrel_isSome).symm
  obtain ⟨rounds, current, split, full, last⟩ :=
    (installations_take_turns handedOverSetup .empty run).1 (.release 0 5 7)
  have calls : ((runActions handedOverSetup (.start .empty) quarrel).get quarrel_isSome).calls
      (.release 0 5 7) = 2 := by decide +kernel
  refine ⟨_, run, by decide +kernel, by decide +kernel, calls, rounds, current, split, full, ?_⟩
  omega

end Registry
end ContractBuild
