import ContractBuild.Proofs.Registry.Deliveries
import ContractBuild.Proofs.Registry.Insertion
import ContractBuild.Proofs.Registry.Visits

/-!
# Calls whose installation succeeded

A success is reported when the downloader has returned, and the caller looks for the binary and asks
the loader only then. So the call answers a module exactly if it sees the binary and the loader
makes a module of it. It sees a file exactly if the downloader had written one. Nobody but the
loader can keep it from answering.
-/

namespace ContractBuild.Registry

variable {μ : Type} {setup : Setup} {s t u first : State μ} {a : Action μ}
  {actions : List (Action μ)} {c d : Nat} {v : Version} {x : Stage μ} {held : Bool}
  {result : Except Failure μ}

def Saw (setup : Setup) (v : Version) (c d : Nat) (first : State μ) (actions : List (Action μ))
    (held : Bool) : Prop :=
  ∃ before after x, actions = before ++ .advance c :: after ∧
    runActions setup first before = some x ∧ x.callers[c]? = some ⟨v, .confirm⟩ ∧
    x.IsLast d v ∧ x.files.holds (setup.binary v) = held

/-- What a call answers by what it saw: that the binary is missing, or what the loader said. -/
def Outcome (setup : Setup) (v : Version) (c : Nat) (actions : List (Action μ))
    (result : Except Failure μ) : Bool → Prop
  | false => result = .error (.download (.missing v (setup.binary v))) ∧
      ∀ r, .loaded c r ∉ actions
  | true => ∀ r, .loaded c r ∈ actions ↔ r = result

/-- The stages of a call since its success was reported, and what is known at them. -/
def Follows (setup : Setup) (v : Version) (c d : Nat) (first : State μ) (actions : List (Action μ))
    (s : State μ) : Stage μ → Prop
  | .confirm => s.IsLast d v ∧ ∀ r, .loaded c r ∉ actions
  | .load => Saw setup v c d first actions true ∧ ∀ r, .loaded c r ∉ actions
  | .adopt m | .publish m =>
    Saw setup v c d first actions true ∧ Outcome setup v c actions (.ok m) true
  | .leave result | .done result =>
    ∃ held, Saw setup v c d first actions held ∧ Outcome setup v c actions result held
  | .lookup | .queue | .recheck | .inspect | .waiting _ => False

def Followed (setup : Setup) (v : Version) (c d : Nat) (first : State μ)
    (actions : List (Action μ)) (s : State μ) : Prop :=
  ∃ x, s.callers[c]? = some ⟨v, x⟩ ∧ Follows setup v c d first actions s x

theorem Saw.concat (saw : Saw setup v c d first actions held) (a : Action μ) :
    Saw setup v c d first (actions ++ [a]) held := by
  obtain ⟨before, after, x, rfl, rest⟩ := saw
  exact ⟨before, after ++ [a], x, by simp, rest⟩

theorem Outcome.concat (outcome : Outcome setup v c actions result held)
    (other : ∀ r, a ≠ .loaded c r) : Outcome setup v c (actions ++ [a]) result held := by
  cases held with
  | false => exact ⟨outcome.1, not_loaded_concat outcome.2 other⟩
  | true =>
    intro r
    rw [List.mem_append, List.mem_singleton, or_iff_left (other r).symm]
    exact outcome r

theorem outcome_of_loaded (not : ∀ r, .loaded c r ∉ actions) (result : Except Failure μ) :
    Outcome setup v c (actions ++ [.loaded c result]) result true := by
  intro r
  rw [List.mem_append, List.mem_singleton, or_iff_right (not r), Action.loaded.injEq,
    and_iff_right rfl]

theorem Transition.stays (h : Transition setup s a t) (other : a.caller? ≠ some c)
    (here : s.callers[c]? = some ⟨v, x⟩) : t.callers[c]? = some ⟨v, x⟩ := by
  have ne {i : Nat} (moves : a.caller? = some i) : c ≠ i := by
    rintro rfl
    exact other moves
  cases h with
  | get | insert =>
    exact (List.getElem?_append_left (List.getElem?_eq_some_iff.1 here).1).trans here
  | hit | miss | turn | hitBehind | missBehind | takeOver | cached | start | unprepared | offline
  | installed | failed | orphaned | confirmed | vanished | adoptFirst | adoptLater | publish | leave
  | giveUp | loaded | unloadable => exact (getElem?_callers_set_ne (ne rfl) rfl).trans here
  | write | unwritable | finish | die | settle | send => exact here

theorem Follows.of_elsewhere (follows : Follows setup v c d first actions s x)
    (h : Transition setup s a t) (turns : HaveTurn Stage.isFetching s)
    (here : s.callers[c]? = some ⟨v, x⟩) (other : a.caller? ≠ some c) :
    Follows setup v c d first (actions ++ [a]) t x := by
  have quiet (r : Except Failure μ) : a ≠ .loaded c r := by
    rintro rfl
    exact other rfl
  cases x with
  | lookup | queue | recheck | inspect | waiting => exact follows
  | confirm =>
    obtain ⟨last, not⟩ := follows
    exact ⟨h.isLast_kept turns here last, not_loaded_concat not quiet⟩
  | load => exact ⟨follows.1.concat a, not_loaded_concat follows.2 quiet⟩
  | adopt m | publish m => exact ⟨follows.1.concat a, follows.2.concat quiet⟩
  | leave result | done result =>
    obtain ⟨held, saw, outcome⟩ := follows
    exact ⟨held, saw.concat a, outcome.concat quiet⟩

theorem Follows.of_own (follows : Follows setup v c d first actions s x)
    (run : runActions setup first actions = some s) (h : Transition setup s a t)
    (here : s.callers[c]? = some ⟨v, x⟩) (mine : a.caller? = some c) :
    Followed setup v c d first (actions ++ [a]) t := by
  have own {i : Nat} {w : Version} {y : Stage μ} (moves : a.caller? = some i)
      (at_i : s.callers[i]? = some ⟨w, y⟩) := Action.caller?_unique mine here moves at_i
  cases h with
  | get | insert | write | unwritable | finish | die | settle | send => cases mine
  | hit at_i | miss at_i | turn at_i | hitBehind at_i | missBehind at_i | takeOver at_i
  | cached at_i | start at_i | unprepared at_i | offline at_i | installed at_i | failed at_i
  | orphaned at_i | giveUp at_i =>
    -- stages before the success was reported
    obtain ⟨rfl, rfl, rfl⟩ := own rfl at_i
    exact follows.elim
  | confirmed at_i seen =>
    obtain ⟨rfl, rfl, rfl⟩ := own rfl at_i
    obtain ⟨last, not⟩ := follows
    exact ⟨_, getElem?_callers_set here rfl, ⟨actions, [], s, rfl, run, here, last, seen⟩,
      not_loaded_concat not fun _ => nofun⟩
  | vanished at_i unseen =>
    obtain ⟨rfl, rfl, rfl⟩ := own rfl at_i
    obtain ⟨last, not⟩ := follows
    exact ⟨_, getElem?_callers_set here rfl, false,
      ⟨actions, [], s, rfl, run, here, last, unseen⟩, rfl, not_loaded_concat not fun _ => nofun⟩
  | adoptFirst at_i | adoptLater at_i =>
    obtain ⟨rfl, rfl, rfl⟩ := own rfl at_i
    exact ⟨_, getElem?_callers_set here rfl, follows.1.concat _, follows.2.concat fun _ => nofun⟩
  | publish at_i =>
    obtain ⟨rfl, rfl, rfl⟩ := own rfl at_i
    exact ⟨_, getElem?_callers_set here rfl, true, follows.1.concat _,
      follows.2.concat fun _ => nofun⟩
  | leave at_i =>
    obtain ⟨rfl, rfl, rfl⟩ := own rfl at_i
    obtain ⟨held, saw, outcome⟩ := follows
    exact ⟨_, getElem?_callers_set here rfl, held, saw.concat _, outcome.concat fun _ => nofun⟩
  | loaded at_i =>
    obtain ⟨rfl, rfl, rfl⟩ := own rfl at_i
    exact ⟨_, getElem?_callers_set here rfl, follows.1.concat _, outcome_of_loaded follows.2 _⟩
  | unloadable at_i =>
    obtain ⟨rfl, rfl, rfl⟩ := own rfl at_i
    exact ⟨_, getElem?_callers_set here rfl, true, follows.1.concat _,
      outcome_of_loaded follows.2 _⟩

theorem followed_of_run {files : FileTree} {earlier : List (Action μ)}
    (before : runActions setup (.start files) earlier = some first)
    (here : first.callers[c]? = some ⟨v, .confirm⟩) (last : first.IsLast d v)
    (run : runActions setup first actions = some s) : Followed setup v c d first actions s := by
  refine runActions_induction (P := Followed setup v c d first) (Q := fun _ => True)
    ⟨_, here, last, fun _ => List.not_mem_nil⟩ ?_ (fun _ _ => trivial) run
  intro actions a s t run ⟨x, at_c, follows⟩ _ moved
  by_cases mine : a.caller? = some c
  · exact follows.of_own run moved at_c mine
  · -- the turns of the whole run keep other downloads of the version away while the caller looks
    have reached : runActions setup (.start files) (earlier ++ actions) = some s := by
      rw [runActions_append, before]
      exact run
    exact ⟨x, moved.stays mine at_c,
      follows.of_elsewhere moved (tracked_of_run reached).turns at_c mine⟩

def ComesBack (setup : Setup) (c : Nat) (said : Except Failure μ) (s : State μ) : Prop :=
  ∃ own t result, (∀ a ∈ own, a = .advance c ∨ a = .loaded c said) ∧
    runActions setup s own = some t ∧ t.answer? c = some result

section

variable {said : Except Failure μ}

theorem ComesBack.of_step (moved : step setup s a = some t)
    (own : a = .advance c ∨ a = .loaded c said) (back : ComesBack setup c said t) :
    ComesBack setup c said s := by
  obtain ⟨rest, u, result, mine, run, answered⟩ := back
  exact ⟨a :: rest, u, result, List.forall_mem_cons.2 ⟨own, mine⟩,
    runActions_cons_iff.2 ⟨t, moved, run⟩, answered⟩

theorem comesBack_of_done (here : s.callers[c]? = some ⟨v, .done result⟩) :
    ComesBack setup c said s :=
  ⟨[], s, result, fun _ => nofun, rfl, by simp only [State.answer?, here]⟩

theorem comesBack_of_leave (here : s.callers[c]? = some ⟨v, .leave result⟩) :
    ComesBack setup c said s := by
  refine .of_step (by simp only [step, advance, here]; rfl) (.inl rfl) ?_
  exact comesBack_of_done (getElem?_callers_set here rfl)

theorem comesBack_of_publish {m : μ} (here : s.callers[c]? = some ⟨v, .publish m⟩) :
    ComesBack setup c said s := by
  refine .of_step (by simp only [step, advance, here]; rfl) (.inl rfl) ?_
  exact comesBack_of_leave (getElem?_callers_set here rfl)

theorem comesBack_of_adopt {m : μ} (here : s.callers[c]? = some ⟨v, .adopt m⟩) :
    ComesBack setup c said s := by
  cases adopted : s.adopted with
  | true =>
    refine .of_step (by simp only [step, advance, here, adopted, if_true]; rfl) (.inl rfl) ?_
    exact comesBack_of_publish (getElem?_callers_set here rfl)
  | false =>
    refine .of_step (by simp only [step, advance, here, adopted]; rfl) (.inl rfl) ?_
    exact comesBack_of_publish (getElem?_callers_set here rfl)

theorem comesBack_of_load (here : s.callers[c]? = some ⟨v, .load⟩) : ComesBack setup c said s := by
  cases said with
  | ok m =>
    refine .of_step (a := .loaded c (.ok m)) (by simp only [step, loaded, here]; rfl) (.inr rfl) ?_
    exact comesBack_of_adopt (getElem?_callers_set here rfl)
  | error failure =>
    refine .of_step (a := .loaded c (.error failure)) (by simp only [step, loaded, here]; rfl)
      (.inr rfl) ?_
    exact comesBack_of_leave (getElem?_callers_set here rfl)

theorem comesBack_of_confirm (here : s.callers[c]? = some ⟨v, .confirm⟩) :
    ComesBack setup c said s := by
  cases seen : s.files.holds (setup.binary v) with
  | true =>
    refine .of_step (by simp only [step, advance, here, seen, if_true]; rfl) (.inl rfl) ?_
    exact comesBack_of_load (getElem?_callers_set here rfl)
  | false =>
    refine .of_step (by simp only [step, advance, here, seen]; rfl) (.inl rfl) ?_
    exact comesBack_of_leave (getElem?_callers_set here rfl)

theorem Followed.comesBack (followed : Followed setup v c d first actions s) :
    ComesBack setup c said s := by
  obtain ⟨x, here, follows⟩ := followed
  cases x with
  | lookup | queue | recheck | inspect | waiting => exact follows.elim
  | confirm => exact comesBack_of_confirm here
  | load => exact comesBack_of_load here
  | adopt m => exact comesBack_of_adopt here
  | publish m => exact comesBack_of_publish here
  | leave result => exact comesBack_of_leave here
  | done result => exact comesBack_of_done here

end

theorem step_installed (setup : Setup) (here : s.callers[c]? = some ⟨v, .waiting d⟩)
    (sent : s.phase? d = some (.sent none)) : step setup s (.advance c) =
      some (((s.setPhase d .received).report (.installSucceeded v)).move c v .confirm) := by
  simp only [step, advance, here, receive, sent]

theorem Outcome.ok_iff (outcome : Outcome setup v c actions result held) (m : μ) :
    result = .ok m ↔ held = true ∧ .loaded c (.ok m) ∈ actions := by
  cases held with
  | false =>
    rw [outcome.1]
    exact iff_of_false nofun nofun
  | true => rw [outcome, and_iff_right rfl, eq_comm]

theorem Outcome.error_iff (outcome : Outcome setup v c actions result held) (failure : Failure) :
    result = .error failure ↔
      held = false ∧ failure = .download (.missing v (setup.binary v)) ∨
        held = true ∧ .loaded c (.error failure) ∈ actions := by
  cases held with
  | false => simp [outcome.1, eq_comm]
  | true =>
    have said := outcome (.error failure)
    simp [said, eq_comm]

/-- A success is reported of a download by a caller that has yet to look for the binary. Whatever
happens then, the call can come back, and it answers a module exactly if it saw the binary and the
loader made this module. Otherwise it fails, as it missed the binary or as the loader did. If all
versions are releases, the file that it saw is the one that the downloader had written. -/
theorem success_answers_iff (setup : Setup) (files : FileTree) {actions : List (Action μ)}
    {s t : State μ} {a : Action μ} {v : Version}
    (run : runActions setup (.start files) actions = some s) (moved : step setup s a = some t)
    (told : t.history = s.history ++ [.event (.installSucceeded v)]) :
    ∃ c d : Nat, a = .advance c ∧ s.callers[c]? = some ⟨v, .waiting d⟩ ∧
      ∀ later u, runActions setup t later = some u →
        (∀ said, ComesBack setup c said u) ∧
        ∀ result, u.answer? c = some result →
          ∃ before after x, later = before ++ .advance c :: after ∧
            runActions setup t before = some x ∧ x.callers[c]? = some ⟨v, .confirm⟩ ∧
            (∀ m, result = .ok m ↔
              x.files.holds (setup.binary v) = true ∧ .loaded c (.ok m) ∈ later) ∧
            (∀ failure, result = .error failure ↔
              x.files.holds (setup.binary v) = false ∧
                failure = .download (.missing v (setup.binary v)) ∨
              x.files.holds (setup.binary v) = true ∧ .loaded c (.error failure) ∈ later) ∧
            ((∀ b ∈ actions ++ a :: before, ∀ w ∈ b.version?, w.IsRelease) →
              InReach setup v files → Delivered setup v d (actions ++ a :: before) x.files) := by
  have inv := tracked_of_run run
  obtain ⟨c, d, rfl, waits, sent, eq⟩ := (transition_of_step moved).eq_of_succeeded told
  have here : t.callers[c]? = some ⟨v, .confirm⟩ := by
    rw [eq]
    exact getElem?_callers_set waits rfl
  have last : t.IsLast d v := by
    have before := inv.owned.isLast (here_of_phase? (inv.awaited.waiting waits) sent) rfl
    rw [eq]
    exact (isLast_iff (versionOf?_of_setPhase rfl)).2 before
  have reached {before : List (Action μ)} {x : State μ}
      (rest : runActions setup t before = some x) :
      runActions setup (.start files) (actions ++ .advance c :: before) = some x := by
    rw [runActions_append, run]
    exact runActions_cons_iff.2 ⟨t, moved, rest⟩
  refine ⟨c, d, rfl, waits, fun later u rest => ?_⟩
  have before := reached (show runActions setup t [] = some t from rfl)
  have followed := followed_of_run before here last rest
  refine ⟨fun said => followed.comesBack, fun result answered => ?_⟩
  obtain ⟨y, at_c, follows⟩ := followed
  obtain ⟨w, done⟩ := done_of_answer? answered
  cases at_c.symm.trans done
  obtain ⟨held, ⟨before, after, x, split, seen, looks, last', rfl⟩, outcome⟩ := follows
  refine ⟨before, after, x, split, seen, looks, outcome.ok_iff, outcome.error_iff, ?_⟩
  intro releases reach
  have deliveries := deliveries_of_run releases (reached seen)
  obtain ⟨e, last'', -, delivered⟩ := deliveries.looking reach looks
  rwa [last'.unique last'']

theorem takenOver_isSome :
    (runActions handedOverSetup (.start .empty) (handedOver.take 16)).isSome = true := by
  decide +kernel

def takenOverState : State Nat :=
  (runActions handedOverSetup (.start .empty) (handedOver.take 16)).get takenOver_isSome

theorem success_answers_iff_handedOver : ∃ (t u x : State Nat) (before : List (Action Nat)),
    step handedOverSetup takenOverState (.advance 1) = some t ∧
    t.history = takenOverState.history ++ [.event (.installSucceeded (.release 0 5 4))] ∧
    runActions handedOverSetup t (handedOver.drop 17) = some u ∧ u.answer? 1 = some (.ok 7) ∧
    x.files.holds (handedOverSetup.binary (.release 0 5 4)) = true ∧
    Delivered handedOverSetup (.release 0 5 4) 0 (handedOver.take 16 ++ .advance 1 :: before)
      x.files := by
  have run : runActions handedOverSetup (.start .empty) (handedOver.take 16) =
      some takenOverState := (Option.some_get takenOver_isSome).symm
  have here : takenOverState.callers[1]? = some ⟨.release 0 5 4, .waiting 0⟩ := by rfl
  have sent : takenOverState.phase? 0 = some (.sent none) := by decide +kernel
  have moved := step_installed handedOverSetup here sent
  obtain ⟨u, whole, answered⟩ : ∃ u,
      runActions handedOverSetup (.start .empty) handedOver = some u ∧ u.answer? 1 = some (.ok 7) :=
    ⟨_, (Option.some_get handedOver_isSome).symm, by decide +kernel⟩
  have parts : handedOver = handedOver.take 16 ++ .advance 1 :: handedOver.drop 17 := rfl
  have releases : ∀ b ∈ handedOver, ∀ w ∈ b.version?, w.IsRelease := by decide
  rw [parts, runActions_append, run, Option.bind_eq_bind, Option.bind_some,
    runActions_cons_iff] at whole
  obtain ⟨t, moved', rest⟩ := whole
  cases moved.symm.trans moved'
  obtain ⟨c, d, eq, waits, follows⟩ := success_answers_iff handedOverSetup .empty run moved rfl
  cases eq
  cases here.symm.trans waits
  obtain ⟨before, after, x, split, -, -, ok, -, delivered⟩ := (follows _ u rest).2 _ answered
  refine ⟨_, u, x, before, moved, rfl, rest, answered, ((ok 7).1 rfl).1, delivered ?_ ?_⟩
  · intro b mem
    refine releases b ?_
    rw [parts, split]
    simp only [List.mem_append, List.mem_cons] at mem ⊢
    exact mem.imp_right fun mem => mem.imp_right .inl
  · intro content found
    rw [FileTree.entry?_of_ne (FileTree.ne_nil_of_file found)] at found
    cases found

/-- A downloader returns without having written a file, and the loader refuses what another one has
written. Both times the success is reported, and the call fails. -/
theorem success_without_module :
    (runActions handedOverSetup (.start .empty) [.get (.release 0 5 4), .advance 0, .advance 0,
        .advance 0, .advance 0, .finish 0 none, .settle 0, .send 0, .advance 0, .advance 0,
        .advance 0]).map (fun t : State Nat => (t.installations (.release 0 5 4), t.answer? 0)) =
      some ([.installStarted (.release 0 5 4), .installSucceeded (.release 0 5 4)],
        some (.error (.download (.missing (.release 0 5 4) "cache/solc-v0.5.4")))) ∧
    (runActions handedOverSetup (.start .empty) [.get (.release 0 5 4), .advance 0, .advance 0,
        .advance 0, .advance 0, .write 0 [1], .finish 0 none, .settle 0, .send 0, .advance 0,
        .advance 0, .loaded 0 (.error (.compiler .noVersion)), .advance 0]).map
        (fun t : State Nat => (t.installations (.release 0 5 4), t.answer? 0)) =
      some ([.installStarted (.release 0 5 4), .installSucceeded (.release 0 5 4)],
        some (.error (.compiler .noVersion))) := by
  decide +kernel

end ContractBuild.Registry
