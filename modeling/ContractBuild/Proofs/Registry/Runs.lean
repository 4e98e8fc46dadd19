import ContractBuild.Proofs.Registry.Downloads
import ContractBuild.Proofs.Registry.Loads
import Mathlib.Data.List.Induction

/-!
Runs of a registry in which callers only ask for versions. Whatever the order of their steps and
of those of the workers, a version has one module, which is made once and from a compiler that
was seen at its place; downloads of one version follow each other; and the handlers are
uninstalled once, for the registration that begins first.
-/

namespace ContractBuild.Registry

variable {μ : Type} {setup : Setup} {s t : State μ} {a : Action μ}

theorem runActions_append (s : State μ) (before after : List (Action μ)) :
    runActions setup s (before ++ after) =
      runActions setup s before >>= fun s => runActions setup s after := by
  induction before generalizing s with
  | nil => rfl
  | cons a before ih =>
    simp only [List.cons_append, runActions]
    cases step setup s a with
    | none => rfl
    | some next => exact ih next

theorem runActions_concat_iff {actions : List (Action μ)} :
    runActions setup s (actions ++ [a]) = some t ↔
      ∃ last, runActions setup s actions = some last ∧ step setup last a = some t := by
  rw [runActions_append]
  cases runActions setup s actions with
  | none => simp
  | some last =>
    simp only [Option.bind_eq_bind, Option.bind_some, runActions, Option.some.injEq,
      exists_eq_left']
    cases step setup last a <;> simp

theorem runActions_induction {P : List (Action μ) → State μ → Prop} {Q : Action μ → Prop}
    (start : P [] s)
    (next : ∀ actions a last t, runActions setup s actions = some last → P actions last →
      Q a → Transition setup last a t → P (actions ++ [a]) t)
    {actions : List (Action μ)} (allowed : ∀ a ∈ actions, Q a)
    (run : runActions setup s actions = some t) : P actions t := by
  induction actions using List.reverseRecOn generalizing t with
  | nil =>
    cases run
    exact start
  | append_singleton actions a ih =>
    obtain ⟨last, before, moved⟩ := runActions_concat_iff.1 run
    have own : Q a := allowed a (List.mem_append_right _ (List.mem_singleton_self a))
    have earlier : P actions last :=
      ih (fun b mem => allowed b (List.mem_append_left _ mem)) before
    exact next actions a last t before earlier own (transition_of_step moved)

/-- The state of a run in which nothing is put in from outside. -/
structure Orderly (s : State μ) : Prop where
  turns : HaveTurn Stage.holdsTurn s
  fetching : HaveTurn Stage.isFetching s
  loaded : LoadedOnce s
  owned : Owned s

theorem Orderly.start (files : FileTree) : Orderly (State.start files : State μ) where
  turns := by
    intro c v stage h
    simp [State.start] at h
  fetching := by
    intro c v stage h
    simp [State.start] at h
  loaded := .start files
  owned := .start files

theorem Transition.orderly (h : Transition setup s a t) (get : a.isInsert = false)
    (inv : Orderly s) : Orderly t where
  turns := h.haveTurn get inv.turns
  fetching := h.fetching_haveTurn inv.fetching
  loaded := h.loadedOnce get inv.turns inv.loaded
  owned := h.owned inv.fetching inv.owned

theorem orderly_of_run {files : FileTree} {actions : List (Action μ)}
    (gets : ∀ a ∈ actions, a.isInsert = false)
    (run : runActions setup (State.start files) actions = some t) : Orderly t :=
  runActions_induction (P := fun _ s => Orderly s) (.start files)
    (fun _ _ _ _ _ inv get moved => moved.orderly get inv) gets run

def Sighted (setup : Setup) (first : State μ) (actions : List (Action μ)) (c : Nat)
    (v : Version) : Prop :=
  ∃ before after s, actions = before ++ .advance c :: after ∧
    runActions setup first before = some s ∧
    (s.callers[c]? = some ⟨v, .inspect⟩ ∨ s.callers[c]? = some ⟨v, .confirm⟩) ∧
    s.files.holds (setup.binary v) = true

theorem Sighted.concat {first : State μ} {actions : List (Action μ)} {c : Nat} {v : Version}
    (h : Sighted setup first actions c v) (a : Action μ) :
    Sighted setup first (actions ++ [a]) c v := by
  obtain ⟨before, after, s, rfl, rest⟩ := h
  exact ⟨before, after ++ [a], s, by simp, rest⟩

theorem loading_of_set {c i : Nat} {v w : Version} {x y : Stage μ}
    (here : s.callers[c]? = some ⟨v, x⟩) (moved : t.callers = s.callers.set c ⟨v, y⟩)
    (other : y ≠ .load) (h : t.callers[i]? = some ⟨w, .load⟩) :
    s.callers[i]? = some ⟨w, .load⟩ := by
  rcases caller_of_set here moved h with ⟨-, eq⟩ | ⟨-, old⟩
  · exact absurd (Caller.mk.inj eq).2.symm other
  · exact old

theorem Transition.loading (h : Transition setup s a t) {i : Nat} {w : Version}
    (loading : t.callers[i]? = some ⟨w, .load⟩) :
    s.callers[i]? = some ⟨w, .load⟩ ∨
      a = .advance i ∧
        (s.callers[i]? = some ⟨w, .inspect⟩ ∨ s.callers[i]? = some ⟨w, .confirm⟩) ∧
        s.files.holds (setup.binary w) = true := by
  cases h with
  | get v =>
    rcases caller_of_append rfl loading with ⟨-, eq⟩ | old
    · cases eq
    · exact .inl old
  | insert v m =>
    rcases caller_of_append rfl loading with ⟨-, eq⟩ | old
    · cases eq
    · exact .inl old
  | cached here free held =>
    rcases caller_of_set here rfl loading with ⟨rfl, eq⟩ | ⟨-, old⟩
    · cases eq
      exact .inr ⟨rfl, .inl here, held⟩
    · exact .inl old
  | confirmed here held =>
    rcases caller_of_set here rfl loading with ⟨rfl, eq⟩ | ⟨-, old⟩
    · cases eq
      exact .inr ⟨rfl, .inr here, held⟩
    · exact .inl old
  | hit here | miss here | turn here | hitBehind here | missBehind here | takeOver here
  | start here | unprepared here | offline here | installed here | failed here | orphaned here
  | vanished here | adoptFirst here | adoptLater here | publish here | leave here | giveUp here
  | loaded here | unloadable here =>
    exact .inl (loading_of_set here rfl (by nofun) loading)
  | write | unwritable | finish | die | settle | send => exact .inl loading

theorem sighted_of_run {first : State μ} (empty : first.callers = [])
    {actions : List (Action μ)} (gets : ∀ a ∈ actions, a.isInsert = false)
    (run : runActions setup first actions = some t) {c : Nat} {v : Version}
    (loading : t.callers[c]? = some ⟨v, .load⟩) : Sighted setup first actions c v := by
  have all := runActions_induction (P := fun actions s => ∀ c v,
    s.callers[c]? = some ⟨v, .load⟩ → Sighted setup first actions c v) ?_ ?_ gets run
  · exact all c v loading
  · intro c v h
    rw [empty] at h
    cases h
  · intro actions a last t before inv _ moved c v h
    rcases moved.loading h with old | ⟨rfl, looked, held⟩
    · exact (inv c v old).concat a
    · exact ⟨actions, [], last, rfl, before, looked, held⟩

def registering? (s : State μ) : Action μ → Option (Version × μ)
  | .advance c => match s.callers[c]? with
    | some ⟨v, .adopt m⟩ => some (v, m)
    | _ => none
  | _ => none

def registrations (setup : Setup) : State μ → List (Action μ) → List (Version × μ)
  | _, [] => []
  | s, a :: rest => (registering? s a).toList ++
      ((step setup s a).map fun t => registrations setup t rest).getD []

theorem registrations_concat {last : State μ} {actions : List (Action μ)}
    (run : runActions setup s actions = some last) (a : Action μ) :
    registrations setup s (actions ++ [a]) =
      registrations setup s actions ++ (registering? last a).toList := by
  induction actions generalizing s with
  | nil =>
    cases run
    cases h : step setup last a <;> simp [registrations, h]
  | cons b actions ih =>
    simp only [runActions] at run
    cases h : step setup s b with
    | none =>
      rw [h] at run
      cases run
    | some next =>
      rw [h] at run
      simp only [List.cons_append, registrations, h, Option.map_some, Option.getD_some,
        List.append_assoc]
      rw [ih run]

def Mark.uninstalled? : Mark μ → Option μ
  | .uninstalled m => some m
  | _ => none

def State.uninstalled (s : State μ) : List μ := s.history.filterMap Mark.uninstalled?

structure Adopted (begun : List (Version × μ)) (s : State μ) : Prop where
  uninstalled : s.uninstalled = (begun.map Prod.snd).take 1
  adopted : s.adopted = !begun.isEmpty
  publishing : ∀ ⦃c : Nat⦄ ⦃v m⦄, s.callers[c]? = some ⟨v, .publish m⟩ → (v, m) ∈ begun
  kept : ∀ ⦃v m⦄, s.module? v = some m → (v, m) ∈ begun

section

variable {begun : List (Version × μ)} {c : Nat} {v : Version} {x y : Stage μ}

theorem Adopted.of_set (inv : Adopted begun s) (here : s.callers[c]? = some ⟨v, x⟩)
    (moved : t.callers = s.callers.set c ⟨v, y⟩) (modules : t.modules = s.modules)
    (adopted : t.adopted = s.adopted) (uninstalled : t.uninstalled = s.uninstalled)
    (other : ∀ m, y ≠ .publish m) : Adopted begun t where
  uninstalled := uninstalled.trans inv.uninstalled
  adopted := adopted.trans inv.adopted
  publishing := by
    intro i w m at_i
    rcases caller_of_set here moved at_i with ⟨-, eq⟩ | ⟨-, old⟩
    · exact absurd (Caller.mk.inj eq).2.symm (other m)
    · exact inv.publishing old
  kept := by
    intro w m found
    rw [State.module?, modules] at found
    exact inv.kept found

theorem Adopted.of_append (inv : Adopted begun s) (came : t.callers = s.callers ++ [⟨v, x⟩])
    (modules : t.modules = s.modules) (adopted : t.adopted = s.adopted)
    (uninstalled : t.uninstalled = s.uninstalled) (other : ∀ m, x ≠ .publish m) :
    Adopted begun t where
  uninstalled := uninstalled.trans inv.uninstalled
  adopted := adopted.trans inv.adopted
  publishing := by
    intro i w m at_i
    rcases caller_of_append came at_i with ⟨-, eq⟩ | old
    · exact absurd (Caller.mk.inj eq).2.symm (other m)
    · exact inv.publishing old
  kept := by
    intro w m found
    rw [State.module?, modules] at found
    exact inv.kept found

theorem Adopted.of_adopt {m : μ} (inv : Adopted begun s)
    (here : s.callers[c]? = some ⟨v, .adopt m⟩)
    (moved : t.callers = s.callers.set c ⟨v, .publish m⟩) (modules : t.modules = s.modules)
    (adopted : t.adopted = true)
    (uninstalled : t.uninstalled = s.uninstalled ++ if s.adopted then [] else [m]) :
    Adopted (begun ++ [(v, m)]) t where
  uninstalled := by
    rw [uninstalled, inv.uninstalled, inv.adopted]
    cases begun <;> simp
  adopted := by
    rw [adopted]
    cases begun <;> rfl
  publishing := by
    intro i w n at_i
    rcases caller_of_set here moved at_i with ⟨-, eq⟩ | ⟨-, old⟩
    · cases eq
      exact List.mem_append_right _ (List.mem_singleton_self _)
    · exact List.mem_append_left _ (inv.publishing old)
  kept := by
    intro w n found
    rw [State.module?, modules] at found
    exact List.mem_append_left _ (inv.kept found)

theorem Adopted.of_publish {m : μ} (inv : Adopted begun s)
    (here : s.callers[c]? = some ⟨v, .publish m⟩)
    (moved : t.callers = s.callers.set c ⟨v, y⟩) (modules : t.modules = Table.put v m s.modules)
    (adopted : t.adopted = s.adopted) (uninstalled : t.uninstalled = s.uninstalled)
    (other : ∀ n, y ≠ .publish n) : Adopted begun t where
  uninstalled := uninstalled.trans inv.uninstalled
  adopted := adopted.trans inv.adopted
  publishing := by
    intro i w n at_i
    rcases caller_of_set here moved at_i with ⟨-, eq⟩ | ⟨-, old⟩
    · exact absurd (Caller.mk.inj eq).2.symm (other n)
    · exact inv.publishing old
  kept := by
    intro w n found
    rw [State.module?, modules] at found
    by_cases eq : w = v
    · subst eq
      rw [Table.find?_put_self] at found
      cases found
      exact inv.publishing here
    · rw [Table.find?_put_ne eq] at found
      exact inv.kept found

end

theorem State.uninstalled_mark (s : State μ) (mark : Mark μ) :
    (s.mark mark).uninstalled = s.uninstalled ++ mark.uninstalled?.toList := by
  simp only [State.uninstalled, State.mark, List.filterMap_append, List.filterMap_cons,
    List.filterMap_nil]
  cases mark.uninstalled? <;> rfl

theorem State.uninstalled_mark_of_none (s : State μ) {mark : Mark μ}
    (none : mark.uninstalled? = none) : (s.mark mark).uninstalled = s.uninstalled := by
  rw [State.uninstalled_mark, none, Option.toList_none, List.append_nil]

theorem State.uninstalled_report (s : State μ) (e : Event) :
    (s.report e).uninstalled = s.uninstalled :=
  s.uninstalled_mark_of_none rfl

theorem registering?_advance {c : Nat} {v : Version} {x : Stage μ}
    (here : s.callers[c]? = some ⟨v, x⟩) (other : ∀ m, x ≠ .adopt m) :
    registering? s (.advance c) = none := by
  simp only [registering?, here]
  split
  · rename_i h
    exact absurd (Caller.mk.inj (Option.some.inj h)).2 (other _)
  · rfl

theorem Transition.adopted {begun : List (Version × μ)} (h : Transition setup s a t)
    (get : a.isInsert = false) (inv : Adopted begun s) :
    Adopted (begun ++ (registering? s a).toList) t := by
  have quiet (none : registering? s a = none) (inv : Adopted begun t) :
      Adopted (begun ++ (registering? s a).toList) t := by
    rw [none, Option.toList_none, List.append_nil]
    exact inv
  cases h with
  | get v => exact quiet rfl (inv.of_append rfl rfl rfl rfl (by nofun))
  | insert v m => cases get
  | adoptFirst here first =>
    simp only [registering?, here, Option.toList_some]
    refine inv.of_adopt here rfl rfl rfl ?_
    rw [first]
    exact State.uninstalled_mark _ _
  | adoptLater here later =>
    simp only [registering?, here, Option.toList_some]
    refine inv.of_adopt here rfl rfl later ?_
    rw [later]
    exact (List.append_nil _).symm
  | publish here =>
    exact quiet (registering?_advance here (by nofun))
      (inv.of_publish here rfl rfl rfl rfl (by nofun))
  | start here | installed here | failed here | orphaned here =>
    exact quiet (registering?_advance here (by nofun))
      (inv.of_set here rfl rfl rfl (State.uninstalled_report _ _) (by nofun))
  | hit here | miss here | turn here | hitBehind here | missBehind here | takeOver here
  | cached here | unprepared here | offline here | confirmed here | vanished here
  | leave here =>
    exact quiet (registering?_advance here (by nofun))
      (inv.of_set here rfl rfl rfl rfl (by nofun))
  | giveUp here =>
    exact quiet rfl (inv.of_set here rfl rfl rfl (State.uninstalled_report _ _) (by nofun))
  | loaded here | unloadable here =>
    exact quiet rfl
      (inv.of_set here rfl rfl rfl (State.uninstalled_mark_of_none _ rfl) (by nofun))
  | write | unwritable | finish | die | settle | send =>
    exact quiet rfl ⟨inv.uninstalled, inv.adopted, inv.publishing, inv.kept⟩

theorem adopted_of_run {files : FileTree} {actions : List (Action μ)}
    (gets : ∀ a ∈ actions, a.isInsert = false)
    (run : runActions setup (State.start files) actions = some t) :
    Adopted (registrations setup (State.start files) actions) t := by
  refine runActions_induction
    (P := fun actions s => Adopted (registrations setup (State.start files) actions) s)
    ?_ ?_ gets run
  · refine ⟨rfl, rfl, ?_, ?_⟩
    · intro c v m h
      simp [State.start] at h
    · intro v m h
      cases h
  · intro actions a last t before inv get moved
    rw [registrations_concat before]
    exact moved.adopted get inv

def State.Answered (s : State μ) (c : Nat) (v : Version) (m : μ) : Prop :=
  s.callers[c]? = some ⟨v, .done (.ok m)⟩

/-- Callers ask for versions and workers download, in any order of steps. All that are answered
a module of one version are answered the same, the only one that the loader made for it, and the
loader is called only behind a sight of the compiler. At any time at most one download of a
version is not over, and one is started only when those before it were received or died. The
handlers are uninstalled once as soon as a registration begins, for the module of the first. -/
theorem concurrent_gets_load_once (setup : Setup) (files : FileTree) {actions : List (Action μ)}
    {t : State μ} (gets : ∀ a ∈ actions, a.isInsert = false)
    (run : runActions setup (State.start files) actions = some t) :
    (∀ c c' v m m', t.Answered c v m → t.Answered c' v m' → m = m') ∧
    (∀ c v m, t.Answered c v m → t.loads v = [m]) ∧
    (∀ v, (t.loads v).length ≤ 1) ∧
    (∀ (c : Nat) v, t.callers[c]? = some ⟨v, .load⟩ →
      Sighted setup (State.start files) actions c v) ∧
    (∀ (i j : Nat) (first second : Download), t.downloads[i]? = some first →
      t.downloads[j]? = some second → first.version = second.version →
      first.phase.isOver = false → second.phase.isOver = false → i = j) ∧
    (∀ a u new, step setup t a = some u → u.downloads = t.downloads ++ [new] →
      ∀ job ∈ t.downloads, job.version = new.version → job.phase.isOver = true) ∧
    t.uninstalled =
      ((registrations setup (State.start files) actions).map Prod.snd).take 1 ∧
    (∀ v m, t.module? v = some m → (v, m) ∈ registrations setup (State.start files) actions) ∧
    (∀ c v m, t.Answered c v m → t.uninstalled.length = 1) := by
  have inv := orderly_of_run gets run
  have adopted := adopted_of_run gets run
  have table {c v m} (h : t.Answered c v m) : t.module? v = some m := by
    have here : t.callers[c]? = some ⟨v, .done (.ok m)⟩ := h
    exact inv.loaded.answered here rfl
  refine ⟨?_, ?_, inv.loaded.loads_length_le, ?_, ?_, ?_, adopted.uninstalled, adopted.kept, ?_⟩
  · intro c c' v m m' h h'
    have found := table h
    rw [table h'] at found
    exact (Option.some.inj found).symm
  · intro c v m h
    exact inv.loaded.kept (table h)
  · intro c v h
    exact sighted_of_run rfl gets run h
  · intro i j first second at_i at_j same active active'
    rcases Nat.lt_trichotomy i j with lt | eq | gt
    · rw [inv.owned.successive lt at_i at_j same] at active
      cases active
    · exact eq
    · rw [inv.owned.successive gt at_j at_i same.symm] at active'
      cases active'
  · intro a u new moved grown job mem same
    have next := (transition_of_step moved).owned inv.fetching inv.owned
    obtain ⟨i, lt, rfl⟩ := List.mem_iff_getElem.1 mem
    have at_i : u.downloads[i]? = some t.downloads[i] := by
      rw [grown, List.getElem?_append_left lt, List.getElem?_eq_getElem lt]
    have at_end : u.downloads[t.downloads.length]? = some new := by
      rw [grown, List.getElem?_concat_length]
    exact next.successive lt at_i at_end same
  · intro c v m h
    have begun := List.length_pos_of_mem (adopted.kept (table h))
    rw [adopted.uninstalled, List.length_take, List.length_map]
    omega

def handedOver : List (Action Nat) :=
  let v := Version.release 0 5 4
  [.get v, .get v, .advance 0, .advance 1, .advance 0, .advance 0, .advance 0, .giveUp 0,
    .advance 0, .advance 1, .advance 1, .advance 1, .write 0 [1], .finish 0 none, .settle 0,
    .send 0, .advance 1, .advance 1, .loaded 1 (.ok 7), .advance 1, .advance 1, .advance 1,
    .get v, .advance 2]

def handedOverSetup : Setup := ⟨"cache", true, .seconds 1⟩

theorem handedOver_isSome :
    (runActions handedOverSetup (State.start .empty) handedOver).isSome = true := by
  decide +kernel

theorem concurrent_gets_load_once_handedOver :
    ∃ t, (∀ a ∈ handedOver, a.isInsert = false) ∧
      runActions handedOverSetup (State.start .empty) handedOver = some t ∧
      (t.answer? 0).map Except.toOption = some none ∧
      (t.answer? 1).map Except.toOption = some (some 7) ∧
      (t.answer? 2).map Except.toOption = some (some 7) ∧
      (t.loads (.release 0 5 4)).length ≤ 1 ∧
      t.uninstalled =
        ((registrations handedOverSetup (State.start .empty) handedOver).map Prod.snd).take 1 := by
  have gets : ∀ a ∈ handedOver, a.isInsert = false := by decide
  have run := (Option.some_get handedOver_isSome).symm
  obtain ⟨-, -, once, -, -, -, handlers, -⟩ :=
    concurrent_gets_load_once handedOverSetup .empty gets run
  refine ⟨_, gets, run, ?_, ?_, ?_, once _, handlers⟩
  · decide +kernel
  · decide +kernel
  · decide +kernel

end ContractBuild.Registry
