import ContractBuild.Proofs.Registry.Announcements
import ContractBuild.Proofs.Registry.Rest

/-!
# One call for a version

A step that is not one of a caller of a version leaves everything alone that the registry keeps for
this version. So while a single call for it is under way, whatever else the registry does, the
stage of this call tells what has become of the download that was left behind, and a call that
fails leaves one behind exactly if it did not wait any longer itself.
-/

namespace ContractBuild.Registry

variable {μ : Type} {setup : Setup} {s t u first : State μ} {a : Action μ}
  {actions : List (Action μ)} {c d i : Nat} {v w : Version} {x y : Stage μ}

def Action.caller? : Action μ → Option Nat
  | .advance c | .giveUp c | .loaded c _ => some c
  | _ => none

theorem Action.caller?_unique {a : Action μ} {s : State μ} {c i : Nat} {v w : Version}
    {x y : Stage μ} (mine : a.caller? = some c) (at_c : s.callers[c]? = some ⟨v, x⟩)
    (moves : a.caller? = some i) (at_i : s.callers[i]? = some ⟨w, y⟩) : c = i ∧ v = w ∧ x = y := by
  cases mine.symm.trans moves
  cases at_c.symm.trans at_i
  exact ⟨rfl, rfl, rfl⟩

def Concerns (v : Version) (s : State μ) (a : Action μ) : Prop :=
  a.version? = some v ∨ ∃ (c : Nat) (x : Stage μ), a.caller? = some c ∧ s.callers[c]? = some ⟨v, x⟩

structure SameAt (v : Version) (s t : State μ) : Prop where
  module : t.module? v = s.module? v
  pending : Table.find? v t.pending = Table.find? v s.pending
  calls : t.calls v = s.calls v
  callers : ∀ (i : Nat) (x : Stage μ), t.callers[i]? = some ⟨v, x⟩ ↔ s.callers[i]? = some ⟨v, x⟩

theorem SameAt.refl (v : Version) (s : State μ) : SameAt v s s :=
  ⟨rfl, rfl, rfl, fun _ _ => .rfl⟩

theorem SameAt.trans (one : SameAt v s t) (two : SameAt v t u) : SameAt v s u where
  module := two.module.trans one.module
  pending := two.pending.trans one.pending
  calls := two.calls.trans one.calls
  callers i x := (two.callers i x).trans (one.callers i x)

theorem SameAt.idleAt (same : SameAt v s t) (idle : s.IdleAt v) : t.IdleAt v :=
  fun i x here => idle ((same.callers i x).1 here)

theorem Transition.elsewhere (h : Transition setup s a t) (other : ¬ Concerns v s a) :
    SameAt v s t := by
  have apart {c : Nat} {w : Version} {x : Stage μ} (mine : a.caller? = some c)
      (here : s.callers[c]? = some ⟨w, x⟩) : v ≠ w :=
    fun eq => other (.inr ⟨c, x, mine, eq ▸ here⟩)
  cases h with
  | get w =>
    have ne : v ≠ w := fun eq => other (.inl (congrArg some eq.symm))
    exact ⟨rfl, rfl, rfl, callers_of_append rfl ne⟩
  | insert w m =>
    have ne : v ≠ w := fun eq => other (.inl (congrArg some eq.symm))
    exact ⟨rfl, rfl, rfl, callers_of_append rfl ne⟩
  | takeOver here =>
    have ne := apart rfl here
    exact ⟨rfl, Table.find?_remove_ne ne _, rfl, callers_of_ne here rfl ne⟩
  | giveUp here =>
    have ne := apart rfl here
    exact ⟨rfl, Table.find?_put_ne ne _ _, rfl, callers_of_ne here rfl ne⟩
  | publish here =>
    have ne := apart rfl here
    exact ⟨Table.find?_put_ne ne _ _, rfl, rfl, callers_of_ne here rfl ne⟩
  | start here =>
    have ne := apart rfl here
    refine ⟨rfl, rfl, ?_, callers_of_ne here rfl ne⟩
    rw [calls_append rfl, if_neg ne, Nat.add_zero]
  | installed here | failed here =>
    exact ⟨rfl, rfl, calls_setPhase s _ _ v, callers_of_ne here rfl (apart rfl here)⟩
  | hit here | miss here | turn here | hitBehind here | missBehind here | cached here
  | unprepared here | offline here | orphaned here | confirmed here | vanished here
  | adoptFirst here | adoptLater here | leave here | loaded here | unloadable here =>
    exact ⟨rfl, rfl, rfl, callers_of_ne here rfl (apart rfl here)⟩
  | write => exact ⟨rfl, rfl, rfl, fun _ _ => .rfl⟩
  | unwritable | finish | die | settle | send =>
    exact ⟨rfl, rfl, calls_setPhase s _ _ v, fun _ _ => .rfl⟩

theorem Transition.underWay (h : Transition setup s a t) (mine : a.caller? = some c)
    (here : s.callers[c]? = some ⟨v, x⟩) (result : Except Failure μ) : x ≠ .done result := by
  cases h with
  | get | insert | write | unwritable | finish | die | settle | send => cases mine
  | hit at_c | miss at_c | turn at_c | hitBehind at_c | missBehind at_c | takeOver at_c
  | cached at_c | start at_c | unprepared at_c | offline at_c | installed at_c | failed at_c
  | orphaned at_c | confirmed at_c | vanished at_c | adoptFirst at_c | adoptLater at_c
  | publish at_c | leave at_c | giveUp at_c | loaded at_c | unloadable at_c =>
    cases mine
    rw [at_c] at here
    cases here
    exact nofun

def Receives (setup : Setup) (first : State μ) (actions : List (Action μ)) (c : Nat) (v : Version)
    (d : Nat) (phase : Phase) : Prop :=
  ∃ before after s, actions = before ++ .advance c :: after ∧
    runActions setup first before = some s ∧ s.callers[c]? = some ⟨v, .waiting d⟩ ∧
    s.phase? d = some phase

/-- What a call answers that waits for a download, by what came of the download. -/
inductive Collects (setup : Setup) (first : State μ) (actions : List (Action μ)) (c : Nat)
    (v : Version) (d : Nat) : Except Failure μ → Prop
  | gaveUp (gaveUp : .giveUp c ∈ actions) :
      Collects setup first actions c v d (.error (.download (.timeout v setup.timeout)))
  | failed {reason : String}
      (received : Receives setup first actions c v d (.sent (some reason))) :
      Collects setup first actions c v d (.error (.download (.failed v reason)))
  | orphaned (received : Receives setup first actions c v d .dead) :
      Collects setup first actions c v d (.error (.download (.failed v deadWorker)))
  | vanished (received : Receives setup first actions c v d (.sent none)) :
      Collects setup first actions c v d (.error (.download (.missing v (setup.binary v))))
  | loaded {result : Except Failure μ} (received : Receives setup first actions c v d (.sent none))
      (loaded : .loaded c result ∈ actions) : Collects setup first actions c v d result

theorem Receives.concat {phase : Phase} (h : Receives setup first actions c v d phase)
    (a : Action μ) : Receives setup first (actions ++ [a]) c v d phase := by
  obtain ⟨before, after, s, rfl, rest⟩ := h
  exact ⟨before, after ++ [a], s, by simp, rest⟩

theorem Collects.concat {result : Except Failure μ}
    (h : Collects setup first actions c v d result) (a : Action μ) :
    Collects setup first (actions ++ [a]) c v d result := by
  cases h with
  | gaveUp gaveUp => exact .gaveUp (List.mem_append_left _ gaveUp)
  | failed received => exact .failed (received.concat a)
  | orphaned received => exact .orphaned (received.concat a)
  | vanished received => exact .vanished (received.concat a)
  | loaded received loaded => exact .loaded (received.concat a) (List.mem_append_left _ loaded)

def Setup.patienceLost (setup : Setup) (v : Version) : Failure :=
  .download (.timeout v setup.timeout)

def LetGo (setup : Setup) (first : State μ) (actions : List (Action μ)) (c : Nat) (v : Version)
    (d : Nat) : Prop :=
  ∃ before after s, actions = before ++ .giveUp c :: after ∧
    runActions setup first before = some s ∧ s.callers[c]? = some ⟨v, .waiting d⟩

theorem LetGo.concat (h : LetGo setup first actions c v d) (a : Action μ) :
    LetGo setup first (actions ++ [a]) c v d := by
  obtain ⟨before, after, s, rfl, rest⟩ := h
  exact ⟨before, after ++ [a], s, by simp, rest⟩

/-- A call that failed has left a download behind exactly if it did not wait any longer, and then
the one that it waited for. -/
structure Leaves (setup : Setup) (v : Version) (c : Nat) (first : State μ)
    (actions : List (Action μ)) (s : State μ) (failure : Failure) : Prop where
  iff : (Table.find? v s.pending).isSome = true ↔
    failure = setup.patienceLost v ∧ .loaded c (.error failure) ∉ actions
  letGo : ∀ d, Table.find? v s.pending = some d → LetGo setup first actions c v d

theorem Leaves.of_free {failure : Failure} (free : Table.find? v s.pending = none)
    (other : failure ≠ setup.patienceLost v ∨ .loaded c (.error failure) ∈ actions) :
    Leaves setup v c first actions s failure where
  iff := by
    refine iff_of_false (by simp [free]) ?_
    rintro ⟨lost, unloaded⟩
    exact other.elim (fun ne => ne lost) unloaded
  letGo d left := by
    rw [free] at left
    cases left

theorem Leaves.concat {failure : Failure} (h : Leaves setup v c first actions s failure)
    (pending : Table.find? v t.pending = Table.find? v s.pending)
    (other : .loaded c (.error failure) ≠ a) :
    Leaves setup v c first (actions ++ [a]) t failure where
  iff := by
    rw [pending, h.iff, List.mem_append, List.mem_singleton, not_or]
    exact and_congr_right fun _ => (and_iff_left other).symm
  letGo d left := (h.letGo d (pending ▸ left)).concat a

structure Untouched (v : Version) (first s : State μ) : Prop where
  module : s.module? v = first.module? v
  pending : Table.find? v s.pending = Table.find? v first.pending
  calls : s.calls v = first.calls v

def OfLeft (v : Version) (first s : State μ) (P : Nat → Prop) : Prop :=
  ∀ d, Table.find? v first.pending = some d → P d ∧ s.calls v = first.calls v

/-- What holds at a stage of the call. -/
def Stands (setup : Setup) (v : Version) (c : Nat) (first : State μ) (actions : List (Action μ))
    (s : State μ) : Stage μ → Prop
  | .lookup | .queue | .recheck | .inspect =>
    Untouched v first s ∧ ∀ result, .loaded c result ∉ actions
  | .waiting d => Table.find? v s.pending = none ∧ (∀ result, .loaded c result ∉ actions) ∧
    OfLeft v first s (· = d)
  | .confirm | .load => Table.find? v s.pending = none ∧ (∀ result, .loaded c result ∉ actions) ∧
    OfLeft v first s fun d => Receives setup first actions c v d (.sent none)
  | .adopt m | .publish m => Table.find? v s.pending = none ∧ .loaded c (.ok m) ∈ actions ∧
    OfLeft v first s fun d => Receives setup first actions c v d (.sent none)
  | .leave result | .done result =>
    (∀ failure, result = .error failure → Leaves setup v c first actions s failure) ∧
    (first.module? v = none → OfLeft v first s fun d =>
      Collects setup first actions c v d result ∧ (Table.find? v s.pending = none ∨
        Table.find? v s.pending = some d ∧ result = .error (setup.patienceLost v)))

/-- A call is the only one for its version. -/
structure Visit (setup : Setup) (v : Version) (c : Nat) (first : State μ)
    (actions : List (Action μ)) (s : State μ) : Prop where
  alone : ∀ (i : Nat) (x : Stage μ), i ≠ c → s.callers[i]? = some ⟨v, x⟩ →
    ∃ result, x = .done result
  here : ∃ x, s.callers[c]? = some ⟨v, x⟩ ∧ Stands setup v c first actions s x

theorem OfLeft.imp {P Q : Nat → Prop} (of : OfLeft v first s P) (calls : t.calls v = s.calls v)
    (imp : ∀ d, P d → Q d) : OfLeft v first t Q :=
  fun d left => ⟨imp d (of d left).1, calls.trans (of d left).2⟩

theorem not_loaded_concat (not : ∀ result, .loaded c result ∉ actions)
    (other : ∀ result, a ≠ .loaded c result) (result : Except Failure μ) :
    .loaded c result ∉ actions ++ [a] := by
  rw [List.mem_append, List.mem_singleton]
  rintro (mem | eq)
  · exact not result mem
  · exact other result eq.symm

theorem Stands.of_sameAt (stands : Stands setup v c first actions s x) (same : SameAt v s t)
    (other : ∀ result, a ≠ .loaded c result) : Stands setup v c first (actions ++ [a]) t x := by
  have unloaded (not : ∀ result, .loaded c result ∉ actions) := not_loaded_concat not other
  cases x with
  | lookup | queue | recheck | inspect =>
    obtain ⟨untouched, not⟩ := stands
    exact ⟨⟨same.module.trans untouched.module, same.pending.trans untouched.pending,
      same.calls.trans untouched.calls⟩, unloaded not⟩
  | waiting d =>
    obtain ⟨free, not, of⟩ := stands
    exact ⟨same.pending.trans free, unloaded not, of.imp same.calls fun _ => id⟩
  | confirm | load =>
    obtain ⟨free, not, of⟩ := stands
    exact ⟨same.pending.trans free, unloaded not, of.imp same.calls fun _ h => h.concat a⟩
  | adopt m | publish m =>
    obtain ⟨free, loaded, of⟩ := stands
    exact ⟨same.pending.trans free, List.mem_append_left _ loaded,
      of.imp same.calls fun _ h => h.concat a⟩
  | leave result | done result =>
    obtain ⟨failed, of⟩ := stands
    refine ⟨fun failure eq => (failed failure eq).concat same.pending (other _).symm,
      fun absent => (of absent).imp same.calls fun d h => ⟨h.1.concat a, ?_⟩⟩
    rw [same.pending]
    exact h.2

theorem prepare_failure {files files' : FileTree} {failure : Failure}
    (failed : prepare setup v files = (.error failure, files')) :
    ∃ fault path, failure = .file fault path := by
  unfold prepare at failed
  split at failed
  · unfold clear at failed
    split at failed
    · split at failed
      · cases failed
      · cases failed
        exact ⟨_, _, rfl⟩
    · cases failed
  · cases failed
    exact ⟨_, _, rfl⟩

section

variable (inv : Visit setup v c first actions s)
include inv

theorem Visit.stands (here : s.callers[c]? = some ⟨v, x⟩) : Stands setup v c first actions s x := by
  obtain ⟨y, at_c, stands⟩ := inv.here
  rw [here] at at_c
  cases at_c
  exact stands

theorem Visit.of_move (here : s.callers[c]? = some ⟨v, x⟩)
    (moved : t.callers = s.callers.set c ⟨v, y⟩)
    (stands : Stands setup v c first (actions ++ [a]) t y) :
    Visit setup v c first (actions ++ [a]) t where
  alone := by
    intro i z other at_i
    rw [getElem?_callers_set_ne other moved] at at_i
    exact inv.alone i z other at_i
  here := ⟨y, getElem?_callers_set here moved, stands⟩

theorem Visit.of_elsewhere (h : Transition setup s a t) (other : ¬ Concerns v s a) :
    Visit setup v c first (actions ++ [a]) t := by
  have same := h.elsewhere other
  obtain ⟨x, at_c, stands⟩ := inv.here
  refine ⟨fun i y ne at_i => inv.alone i y ne ((same.callers i y).1 at_i), x,
    (same.callers c x).2 at_c, stands.of_sameAt same ?_⟩
  rintro result rfl
  exact other (.inr ⟨c, x, rfl, at_c⟩)

theorem Visit.mover (h : Transition setup s a t) (mine : a.caller? = some i)
    (here : s.callers[i]? = some ⟨v, x⟩) : i = c := by
  by_contra other
  obtain ⟨result, rfl⟩ := inv.alone i x other here
  exact h.underWay mine here result rfl

end

theorem Untouched.nothing_left (untouched : Untouched v first s)
    (free : Table.find? v s.pending = none) (P : Nat → Prop) : OfLeft v first t P := by
  intro d left
  rw [← untouched.pending, free] at left
  cases left

theorem stands_of_failure {failure : Failure} (free : Table.find? v s.pending = none)
    (other : failure ≠ setup.patienceLost v)
    (of : OfLeft v first s fun d => Collects setup first actions c v d (.error failure)) :
    Stands setup v c first actions s (.leave (.error failure)) := by
  refine ⟨fun failure' eq => ?_, fun _ => of.imp rfl fun d collects => ⟨collects, .inl free⟩⟩
  cases eq
  exact .of_free free (.inl other)

theorem stands_of_takeOver (untouched : Untouched v first s)
    (not : ∀ result, .loaded c result ∉ actions) (left : Table.find? v s.pending = some d) :
    Stands setup v c first (actions ++ [.advance c])
      ({ s with pending := Table.remove v s.pending }.move c v (.waiting d)) (.waiting d) := by
  refine ⟨Table.find?_remove_self .., (not_loaded_concat not fun _ => nofun),
    fun d left' => ⟨?_, untouched.calls⟩⟩
  rw [← untouched.pending, left] at left'
  exact (Option.some.inj left').symm

theorem stands_of_refused {reason : String} (free : Table.find? v t.pending = none)
    (calls : t.calls v = s.calls v) (of : OfLeft v first s (· = d))
    (collects : Collects setup first actions c v d (.error (.download (.failed v reason)))) :
    Stands setup v c first actions t (.leave (.error (.download (.failed v reason)))) := by
  refine stands_of_failure free (by simp [Setup.patienceLost]) (of.imp calls ?_)
  rintro _ rfl
  exact collects

theorem stands_of_giveUp (run : runActions setup first actions = some s)
    (here : s.callers[c]? = some ⟨v, .waiting d⟩) (not : ∀ result, .loaded c result ∉ actions)
    (of : OfLeft v first s (· = d)) : Stands setup v c first (actions ++ [.giveUp c])
      ({ s with pending := Table.put v d s.pending }.failWait c v (.timeout v setup.timeout))
      (.leave (.error (.download (.timeout v setup.timeout)))) := by
  have left : Table.find? v (Table.put v d s.pending) = some d := Table.find?_put_self ..
  refine ⟨fun failure eq => ⟨?_, fun d' left' => ?_⟩, fun _ => of.imp rfl ?_⟩
  · cases eq
    have unloaded := not_loaded_concat (a := .giveUp c) not fun _ => nofun
    exact iff_of_true (Option.isSome_iff_exists.2 ⟨_, left⟩) ⟨rfl, unloaded _⟩
  · cases left.symm.trans left'
    exact ⟨actions, [], s, rfl, run, here⟩
  · rintro _ rfl
    exact ⟨.gaveUp (List.mem_append_right _ (List.mem_singleton_self _)), .inr ⟨left, rfl⟩⟩

theorem stands_of_unloadable {failure : Failure} (free : Table.find? v t.pending = none)
    (loaded : .loaded c (.error failure) ∈ actions)
    (of : OfLeft v first t fun d => Receives setup first actions c v d (.sent none)) :
    Stands setup v c first actions t (.leave (.error failure)) := by
  refine ⟨fun failure' eq => ?_,
    fun _ => of.imp rfl fun _ received => ⟨.loaded received loaded, .inl free⟩⟩
  cases eq
  exact .of_free free (.inr loaded)

theorem Visit.of_own (inv : Visit setup v c first actions s)
    (run : runActions setup first actions = some s) (h : Transition setup s a t)
    (mine : a.caller? = some c) : Visit setup v c first (actions ++ [a]) t := by
  obtain ⟨x, at_c, stands⟩ := inv.here
  -- a move of the call starts at the stage that is known of it
  have own {i : Nat} {w : Version} {y : Stage μ} (moves : a.caller? = some i)
      (here : s.callers[i]? = some ⟨w, y⟩) := Action.caller?_unique mine at_c moves here
  have last {result : Except Failure μ} : .loaded c result ∈ actions ++ [.loaded c result] :=
    List.mem_append_right _ (List.mem_singleton_self _)
  cases h with
  | get | insert | write | unwritable | finish | die | settle | send => cases mine
  | miss here | missBehind here | turn here =>
    obtain ⟨rfl, rfl, rfl⟩ := own rfl here
    obtain ⟨untouched, not⟩ := stands
    exact inv.of_move here rfl ⟨⟨untouched.module, untouched.pending, untouched.calls⟩,
      not_loaded_concat not fun _ => nofun⟩
  | hit here found | hitBehind here found =>
    obtain ⟨rfl, rfl, rfl⟩ := own rfl here
    obtain ⟨untouched, -⟩ := stands
    refine inv.of_move here rfl ⟨fun _ => nofun, fun absent => ?_⟩
    rw [← untouched.module, found] at absent
    cases absent
  | takeOver here left =>
    obtain ⟨rfl, rfl, rfl⟩ := own rfl here
    exact inv.of_move here rfl (stands_of_takeOver stands.1 stands.2 left)
  | cached here free | start here free =>
    obtain ⟨rfl, rfl, rfl⟩ := own rfl here
    obtain ⟨untouched, not⟩ := stands
    exact inv.of_move here rfl
      ⟨free, (not_loaded_concat not fun _ => nofun), untouched.nothing_left free _⟩
  | unprepared here free _ _ failed =>
    obtain ⟨rfl, rfl, rfl⟩ := own rfl here
    obtain ⟨fault, path, rfl⟩ := prepare_failure failed
    exact inv.of_move here rfl (stands_of_failure free (by simp [Setup.patienceLost])
      (stands.1.nothing_left free _))
  | offline here free =>
    obtain ⟨rfl, rfl, rfl⟩ := own rfl here
    exact inv.of_move here rfl (stands_of_failure free (by simp [Setup.patienceLost])
      (stands.1.nothing_left free _))
  | installed here sent =>
    obtain ⟨rfl, rfl, rfl⟩ := own rfl here
    obtain ⟨free, not, of⟩ := stands
    refine inv.of_move here rfl ⟨free, (not_loaded_concat not fun _ => nofun),
      of.imp (calls_setPhase s _ _ _) ?_⟩
    rintro _ rfl
    exact ⟨actions, [], s, rfl, run, here, sent⟩
  | failed here sent =>
    obtain ⟨rfl, rfl, rfl⟩ := own rfl here
    obtain ⟨free, -, of⟩ := stands
    exact inv.of_move here rfl (stands_of_refused free (calls_setPhase s _ _ _) of
      (.failed ⟨actions, [], s, rfl, run, here, sent⟩))
  | orphaned here dead =>
    obtain ⟨rfl, rfl, rfl⟩ := own rfl here
    obtain ⟨free, -, of⟩ := stands
    exact inv.of_move here rfl (stands_of_refused free rfl of
      (.orphaned ⟨actions, [], s, rfl, run, here, dead⟩))
  | giveUp here =>
    obtain ⟨rfl, rfl, rfl⟩ := own rfl here
    obtain ⟨-, not, of⟩ := stands
    exact inv.of_move here rfl (stands_of_giveUp run here not of)
  | confirmed here =>
    obtain ⟨rfl, rfl, rfl⟩ := own rfl here
    obtain ⟨free, not, of⟩ := stands
    exact inv.of_move here rfl ⟨free, (not_loaded_concat not fun _ => nofun),
      of.imp rfl fun _ received => received.concat _⟩
  | vanished here =>
    obtain ⟨rfl, rfl, rfl⟩ := own rfl here
    obtain ⟨free, -, of⟩ := stands
    exact inv.of_move here rfl (stands_of_failure free (by simp [Setup.patienceLost])
      (of.imp rfl fun _ received => .vanished (received.concat _)))
  | loaded here =>
    obtain ⟨rfl, rfl, rfl⟩ := own rfl here
    obtain ⟨free, -, of⟩ := stands
    exact inv.of_move here rfl ⟨free, last, of.imp rfl fun _ received => received.concat _⟩
  | unloadable here =>
    obtain ⟨rfl, rfl, rfl⟩ := own rfl here
    obtain ⟨free, -, of⟩ := stands
    exact inv.of_move here rfl
      (stands_of_unloadable free last (of.imp rfl fun _ received => received.concat _))
  | adoptFirst here | adoptLater here =>
    obtain ⟨rfl, rfl, rfl⟩ := own rfl here
    obtain ⟨free, loaded, of⟩ := stands
    exact inv.of_move here rfl ⟨free, List.mem_append_left _ loaded,
      of.imp rfl fun _ received => received.concat _⟩
  | publish here =>
    obtain ⟨rfl, rfl, rfl⟩ := own rfl here
    obtain ⟨free, loaded, of⟩ := stands
    exact inv.of_move here rfl ⟨fun _ => nofun, fun _ => of.imp rfl fun d received =>
      ⟨.loaded (received.concat _) (List.mem_append_left _ loaded), .inl free⟩⟩
  | leave here =>
    obtain ⟨rfl, rfl, rfl⟩ := own rfl here
    obtain ⟨failed, of⟩ := stands
    exact inv.of_move here rfl ⟨fun failure eq => (failed failure eq).concat rfl nofun,
      fun absent => (of absent).imp rfl fun d collected => ⟨collected.1.concat _, collected.2⟩⟩

theorem Visit.of_step (inv : Visit setup v c first actions s)
    (run : runActions setup first actions = some s) (h : Transition setup s a t)
    (none : a.version? ≠ some v) : Visit setup v c first (actions ++ [a]) t := by
  by_cases concerns : Concerns v s a
  · rcases concerns with comes | ⟨i, x, mine, here⟩
    · exact absurd comes none
    · obtain rfl := inv.mover h mine here
      exact inv.of_own run h mine
  · exact inv.of_elsewhere h concerns

theorem done_of_answer? {result : Except Failure μ} (answered : s.answer? c = some result) :
    ∃ v, s.callers[c]? = some ⟨v, .done result⟩ := by
  unfold State.answer? at answered
  split at answered
  · cases answered
    exact ⟨_, ‹_›⟩
  · cases answered

theorem Visit.answered {result : Except Failure μ} (inv : Visit setup v c first actions s)
    (answered : s.answer? c = some result) :
    s.callers[c]? = some ⟨v, .done result⟩ ∧
      Stands setup v c first actions s (.done result) := by
  obtain ⟨w, at_c⟩ := done_of_answer? answered
  obtain ⟨x, here, stands⟩ := inv.here
  cases here.symm.trans at_c
  exact ⟨here, stands⟩

end ContractBuild.Registry
