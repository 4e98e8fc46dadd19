import ContractBuild.Proofs.Registry.CachePaths
import ContractBuild.Proofs.Registry.Downloads

/-!
Whose download it is. A download keeps its version; callers wait for downloads of their own
versions and leave such behind; and a download that is not over is the last one of its version.
-/

namespace ContractBuild.Registry

variable {μ : Type} {setup : Setup} {s t : State μ} {a : Action μ} {c d e : Nat} {v w : Version}

def State.versionOf? (s : State μ) (d : Nat) : Option Version := (s.downloads[d]?).map (·.version)

def State.IsLast (s : State μ) (d : Nat) (v : Version) : Prop :=
  s.versionOf? d = some v ∧ ∀ e, d < e → s.versionOf? e ≠ some v

theorem State.IsLast.unique (last : s.IsLast d v) (last' : s.IsLast e v) : d = e := by
  rcases Nat.lt_trichotomy d e with lt | eq | gt
  · exact absurd last'.1 (last.2 e lt)
  · exact eq
  · exact absurd last.1 (last'.2 d gt)

theorem isLast_iff (versions : ∀ e, t.versionOf? e = s.versionOf? e) :
    t.IsLast d v ↔ s.IsLast d v := by
  simp only [State.IsLast, versions]

theorem versionOf?_eq_some_iff :
    s.versionOf? d = some v ↔ ∃ phase, s.downloads[d]? = some ⟨v, phase⟩ := by
  rw [State.versionOf?, Option.map_eq_some_iff]
  constructor
  · intro ⟨⟨_, phase⟩, found, rfl⟩
    exact ⟨phase, found⟩
  · intro ⟨phase, found⟩
    exact ⟨_, found, rfl⟩

theorem versionOf?_of_here {phase : Phase} (here : s.downloads[d]? = some ⟨v, phase⟩) :
    s.versionOf? d = some v :=
  versionOf?_eq_some_iff.2 ⟨phase, here⟩

theorem phase?_of_here {phase : Phase} (here : s.downloads[d]? = some ⟨v, phase⟩) :
    s.phase? d = some phase := by
  rw [State.phase?_eq, here, Option.map_some]

theorem here_of_phase? {phase : Phase} (version : s.versionOf? d = some v)
    (found : s.phase? d = some phase) : s.downloads[d]? = some ⟨v, phase⟩ := by
  obtain ⟨_, here⟩ := versionOf?_eq_some_iff.1 version
  rw [phase?_of_here here, Option.some.injEq] at found
  rw [here, found]

@[simp] theorem State.versionOf?_setPhase (s : State μ) (d : Nat) (phase : Phase) (e : Nat) :
    (s.setPhase d phase).versionOf? e = s.versionOf? e := by
  simp only [State.versionOf?, State.setPhase, List.getElem?_modify]
  cases s.downloads[e]? with
  | none => rfl
  | some job =>
    by_cases same : d = e
    · simp [same]
    · simp [same]

theorem versionOf?_of_setPhase {phase : Phase}
    (downloads : t.downloads = (s.setPhase d phase).downloads) (e : Nat) :
    t.versionOf? e = s.versionOf? e := by
  rw [State.versionOf?, downloads]
  exact State.versionOf?_setPhase ..

theorem State.phase?_setPhase_self (here : s.versionOf? d = some v) (phase : Phase) :
    (s.setPhase d phase).phase? d = some phase := by
  obtain ⟨old, found⟩ := versionOf?_eq_some_iff.1 here
  simp [State.phase?_eq, State.setPhase, found]

theorem State.phase?_setPhase_ne (s : State μ) (ne : e ≠ d) (phase : Phase) :
    (s.setPhase d phase).phase? e = s.phase? e := by
  simp [State.phase?_eq, State.setPhase, ne.symm]

theorem getElem?_downloads_append {job : Download} (grown : t.downloads = s.downloads ++ [job])
    (e : Nat) :
    t.downloads[e]? = if e = s.downloads.length then some job else s.downloads[e]? := by
  rw [grown]
  by_cases last : e = s.downloads.length
  · rw [if_pos last, last, List.getElem?_concat_length]
  · rw [if_neg last]
    rcases Nat.lt_or_gt_of_ne last with lt | gt
    · rw [List.getElem?_append_left lt]
    · rw [List.getElem?_eq_none (by simp; omega), List.getElem?_eq_none (by omega)]

theorem versionOf?_append {job : Download} (grown : t.downloads = s.downloads ++ [job]) (e : Nat) :
    t.versionOf? e = if e = s.downloads.length then some job.version else s.versionOf? e := by
  rw [State.versionOf?, getElem?_downloads_append grown]
  split
  · rfl
  · rfl

theorem phase?_append {job : Download} (grown : t.downloads = s.downloads ++ [job]) (e : Nat) :
    t.phase? e = if e = s.downloads.length then some job.phase else s.phase? e := by
  rw [State.phase?_eq, getElem?_downloads_append grown]
  split
  · rfl
  · rfl

theorem lt_length_of_versionOf? (found : s.versionOf? d = some v) : d < s.downloads.length := by
  obtain ⟨phase, here⟩ := versionOf?_eq_some_iff.1 found
  exact (List.getElem?_eq_some_iff.1 here).1

theorem exists_isLast {d : Nat} (found : s.versionOf? d = some v) : ∃ e, s.IsLast e v := by
  by_cases later : ∃ e, d < e ∧ s.versionOf? e = some v
  · obtain ⟨e, lt, found'⟩ := later
    exact exists_isLast found'
  · exact ⟨d, found, fun e lt found' => later ⟨e, lt, found'⟩⟩
termination_by s.downloads.length - d
decreasing_by
  have bound := lt_length_of_versionOf? found
  omega

theorem versionOf?_length (s : State μ) : s.versionOf? s.downloads.length = none := by
  rw [State.versionOf?, List.getElem?_eq_none (Nat.le_refl _), Option.map_none]

theorem Transition.versions (h : Transition setup s a t) :
    (∀ d, t.versionOf? d = s.versionOf? d) ∨
      ∃ (c : Nat) (v : Version), s.callers[c]? = some ⟨v, .inspect⟩ ∧
        prepare setup v s.files = (.ok (), t.files) ∧
        t.downloads = s.downloads ++ [⟨v, .running⟩] := by
  cases h with
  | start here _ _ _ prepared => exact .inr ⟨_, _, here, prepared, rfl⟩
  | installed | failed | unwritable | finish | die | settle | send =>
    exact .inl fun _ => State.versionOf?_setPhase ..
  | get | insert | hit | miss | turn | hitBehind | missBehind | takeOver | cached | unprepared
  | offline | orphaned | confirmed | vanished | adoptFirst | adoptLater | publish | leave | giveUp
  | loaded | unloadable | write =>
    exact .inl fun _ => rfl

theorem Transition.of_grown (h : Transition setup s a t)
    (grown : t.downloads = s.downloads ++ [⟨v, .running⟩]) :
    ∃ c : Nat, s.callers[c]? = some ⟨v, .inspect⟩ ∧
      prepare setup v s.files = (.ok (), t.files) := by
  rcases h.versions with same | ⟨c, w, here, prepared, grown'⟩
  · have fresh := same s.downloads.length
    rw [versionOf?_append grown, if_pos rfl, versionOf?_length] at fresh
    cases fresh
  · rw [grown'] at grown
    cases List.append_cancel_left grown
    exact ⟨c, here, prepared⟩

theorem Transition.versionOf?_kept (h : Transition setup s a t) (found : s.versionOf? d = some v) :
    t.versionOf? d = some v := by
  rcases h.versions with same | ⟨c, w, -, -, grown⟩
  · rw [same, found]
  · rw [versionOf?_append grown, if_neg (Nat.ne_of_lt (lt_length_of_versionOf? found)), found]

theorem Owned.isLast {phase : Phase} (inv : Owned s) (here : s.downloads[d]? = some ⟨v, phase⟩)
    (active : phase.isOver = false) : s.IsLast d v := by
  refine ⟨versionOf?_of_here here, fun e lt later => ?_⟩
  obtain ⟨phase', found⟩ := versionOf?_eq_some_iff.1 later
  have ended := inv.successive lt here found rfl
  rw [active] at ended
  cases ended

structure Awaited (s : State μ) : Prop where
  waiting : ∀ ⦃c d : Nat⦄ ⦃v⦄, s.callers[c]? = some ⟨v, .waiting d⟩ → s.versionOf? d = some v
  pending : ∀ ⦃v d⦄, Table.find? v s.pending = some d → s.versionOf? d = some v

theorem Awaited.start (files : FileTree) : Awaited (State.start files : State μ) where
  waiting := by
    intro c d v h
    simp [State.start] at h
  pending := by
    intro v d h
    cases h

section

variable {x y : Stage μ} (inv : Awaited s)
  (kept : ∀ ⦃d v⦄, s.versionOf? d = some v → t.versionOf? d = some v)
include inv kept

theorem Awaited.of_set (here : s.callers[c]? = some ⟨v, x⟩)
    (callers : t.callers = s.callers.set c ⟨v, y⟩)
    (new : ∀ d : Nat, y.waitsFor? = some d → t.versionOf? d = some v)
    (left : ∀ w d, Table.find? w t.pending = some d →
      Table.find? w s.pending = some d ∨ t.versionOf? d = some w) : Awaited t where
  waiting := by
    intro i d w waits
    rcases caller_of_set here callers waits with ⟨-, eq⟩ | ⟨-, old⟩
    · cases eq
      exact new d rfl
    · exact kept (inv.waiting old)
  pending := by
    intro w d found
    rcases left w d found with old | known
    · exact kept (inv.pending old)
    · exact known

theorem Awaited.of_append (callers : t.callers = s.callers ++ [⟨v, x⟩])
    (free : x.waitsFor? = none) (pending : t.pending = s.pending) : Awaited t where
  waiting := by
    intro i d w waits
    rcases caller_of_append callers waits with ⟨-, eq⟩ | old
    · cases eq
      cases free
    · exact kept (inv.waiting old)
  pending := by
    intro w d found
    rw [pending] at found
    exact kept (inv.pending found)

theorem Awaited.of_worker (callers : t.callers = s.callers) (pending : t.pending = s.pending) :
    Awaited t where
  waiting := by
    intro i d w waits
    rw [callers] at waits
    exact kept (inv.waiting waits)
  pending := by
    intro w d found
    rw [pending] at found
    exact kept (inv.pending found)

end

theorem Transition.awaited (h : Transition setup s a t) (inv : Awaited s) : Awaited t := by
  have kept := fun d v => h.versionOf?_kept (d := d) (v := v)
  cases h with
  | get v => exact inv.of_append kept rfl rfl rfl
  | insert v m => exact inv.of_append kept rfl rfl rfl
  | @takeOver c v d here left =>
    apply inv.of_set kept here rfl
    · intro e same
      cases same
      exact inv.pending left
    · intro w e found
      by_cases same : w = v
      · subst same
        cases (Table.find?_remove_self ..).symm.trans found
      · exact .inl ((Table.find?_remove_ne same ..).symm.trans found)
  | start here =>
    apply inv.of_set kept here rfl
    · intro e same
      cases same
      exact versionOf?_of_here (List.getElem?_concat_length ..)
    · exact fun _ _ => .inl
  | @giveUp c v d _ here =>
    apply inv.of_set kept here rfl
    · exact nofun
    · intro w e found
      by_cases same : w = v
      · subst same
        cases (Table.find?_put_self ..).symm.trans found
        exact .inr (kept _ _ (inv.waiting here))
      · exact .inl ((Table.find?_put_ne same ..).symm.trans found)
  | hit here | miss here | turn here | hitBehind here | missBehind here | cached here
  | unprepared here | offline here | installed here | failed here | orphaned here | confirmed here
  | vanished here | adoptFirst here | adoptLater here | publish here | leave here | loaded here
  | unloadable here => exact inv.of_set kept here rfl (by nofun) fun _ _ => .inl
  | write | unwritable | finish | die | settle | send => exact inv.of_worker kept rfl rfl

def Action.version? : Action μ → Option Version
  | .get v | .insert v _ => some v
  | _ => none

theorem Transition.caller_version (h : Transition setup s a t) {x : Stage μ}
    (here : t.callers[c]? = some ⟨v, x⟩) :
    a.version? = some v ∨ ∃ y, s.callers[c]? = some ⟨v, y⟩ := by
  have set {i : Nat} {w : Version} {x' y' : Stage μ} (before : s.callers[i]? = some ⟨w, x'⟩)
      (callers : t.callers = s.callers.set i ⟨w, y'⟩) : ∃ y, s.callers[c]? = some ⟨v, y⟩ := by
    rcases caller_of_set before callers here with ⟨rfl, eq⟩ | ⟨-, old⟩
    · cases eq
      exact ⟨_, before⟩
    · exact ⟨_, old⟩
  cases h with
  | get w | insert w m =>
    rcases caller_of_append rfl here with ⟨-, eq⟩ | old
    · cases eq
      exact .inl rfl
    · exact .inr ⟨_, old⟩
  | hit before | miss before | turn before | hitBehind before | missBehind before
  | takeOver before | cached before | start before | unprepared before | offline before
  | installed before | failed before | orphaned before | confirmed before | vanished before
  | adoptFirst before | adoptLater before | publish before | leave before | giveUp before
  | loaded before | unloadable before => exact .inr (set before rfl)
  | write | unwritable | finish | die | settle | send => exact .inr ⟨_, here⟩

/-- The state of a run in which all versions are releases. -/
structure Fetching (s : State μ) : Prop where
  turns : HaveTurn Stage.isFetching s
  owned : Owned s
  awaited : Awaited s
  callers : ∀ ⦃c : Nat⦄ ⦃v stage⦄, s.callers[c]? = some ⟨v, stage⟩ → v.IsRelease
  downloads : ∀ ⦃d v⦄, s.versionOf? d = some v → v.IsRelease

theorem Fetching.start (files : FileTree) : Fetching (State.start files : State μ) where
  turns := by
    intro c v stage h
    simp [State.start] at h
  owned := .start files
  awaited := .start files
  callers := by
    intro c v stage h
    simp [State.start] at h
  downloads := by
    intro d v h
    simp [State.start, State.versionOf?] at h

theorem Transition.fetching (h : Transition setup s a t)
    (release : ∀ v ∈ a.version?, v.IsRelease) (inv : Fetching s) : Fetching t where
  turns := h.fetching_haveTurn inv.turns
  owned := h.owned inv.turns inv.owned
  awaited := h.awaited inv.awaited
  callers := by
    intro c v stage here
    rcases h.caller_version here with asked | ⟨y, old⟩
    · exact release v asked
    · exact inv.callers old
  downloads := by
    intro d v found
    rcases h.versions with same | ⟨c, w, here, -, grown⟩
    · rw [same] at found
      exact inv.downloads found
    · rw [versionOf?_append grown] at found
      split at found
      · cases found
        exact inv.callers here
      · exact inv.downloads found

end ContractBuild.Registry
