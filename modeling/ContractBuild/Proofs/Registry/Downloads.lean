import ContractBuild.Proofs.Registry.Turns

/-!
Who may receive the end of a download. A download that is not over is either left behind by a
caller that gave up, or waited for by the caller that has the turn; so a new one is started for
a version only when all earlier ones of it are over.
-/

namespace ContractBuild.Registry

variable {μ : Type} {setup : Setup} {s t : State μ} {a : Action μ}

def Stage.waitsFor? : Stage μ → Option Nat
  | .waiting d => some d
  | _ => none

structure Owned (s : State μ) : Prop where
  single : ∀ ⦃c d : Nat⦄ ⦃v⦄, s.callers[c]? = some ⟨v, .waiting d⟩ → Table.find? v s.pending = none
  owned : ∀ ⦃d : Nat⦄ ⦃job : Download⦄, s.downloads[d]? = some job → job.phase.isOver = false →
    Table.find? job.version s.pending = some d ∨
      ∃ c : Nat, s.callers[c]? = some ⟨job.version, .waiting d⟩
  successive : ∀ ⦃i j : Nat⦄ ⦃earlier later : Download⦄, i < j → s.downloads[i]? = some earlier →
    s.downloads[j]? = some later → earlier.version = later.version → earlier.phase.isOver = true

theorem Owned.start (files : FileTree) : Owned (State.start files : State μ) where
  single := by
    intro c d v h
    simp [State.start] at h
  owned := by
    intro d job h
    simp [State.start] at h
  successive := by
    intro i j earlier later _ h
    simp [State.start] at h

section

variable {c d : Nat} {v : Version} {x y : Stage μ}

theorem waits_of_set {i e : Nat} {w : Version} (here : s.callers[c]? = some ⟨v, x⟩)
    (moved : t.callers = s.callers.set c ⟨v, y⟩) (behind : y.waitsFor? = none)
    (waits : t.callers[i]? = some ⟨w, .waiting e⟩) :
    i ≠ c ∧ s.callers[i]? = some ⟨w, .waiting e⟩ := by
  rcases caller_of_set here moved waits with ⟨rfl, eq⟩ | old
  · cases eq
    cases behind
  · exact old

theorem waits_behind_set {i e : Nat} {w : Version} (here : s.callers[c]? = some ⟨v, x⟩)
    (moved : t.callers = s.callers.set c ⟨v, y⟩) (before : x.waitsFor? ≠ some e)
    (waits : s.callers[i]? = some ⟨w, .waiting e⟩) : t.callers[i]? = some ⟨w, .waiting e⟩ := by
  have other : i ≠ c := by
    intro eq
    subst eq
    rw [here] at waits
    cases waits
    exact before rfl
  exact (getElem?_callers_set_ne other moved).trans waits

theorem Owned.of_set (inv : Owned s) (here : s.callers[c]? = some ⟨v, x⟩)
    (moved : t.callers = s.callers.set c ⟨v, y⟩) (pending : t.pending = s.pending)
    (downloads : t.downloads = s.downloads)
    (ended : ∀ e, x.waitsFor? = some e → ∀ job, s.downloads[e]? = some job →
      job.phase.isOver = true)
    (behind : y.waitsFor? = none) : Owned t where
  single := by
    intro i e w waits
    rw [pending]
    exact inv.single (waits_of_set here moved behind waits).2
  owned := by
    intro e job found active
    rw [pending]
    rw [downloads] at found
    rcases inv.owned found active with left | ⟨i, waits⟩
    · exact .inl left
    · refine .inr ⟨i, waits_behind_set here moved (fun eq => ?_) waits⟩
      rw [ended e eq job found] at active
      cases active
  successive := by
    rw [downloads]
    exact inv.successive

theorem Owned.of_append (inv : Owned s) (came : t.callers = s.callers ++ [⟨v, x⟩])
    (pending : t.pending = s.pending) (downloads : t.downloads = s.downloads)
    (behind : x.waitsFor? = none) : Owned t where
  single := by
    intro i e w waits
    rw [pending]
    rcases caller_of_append came waits with ⟨-, eq⟩ | old
    · cases eq
      cases behind
    · exact inv.single old
  owned := by
    intro e job found active
    rw [pending]
    rw [downloads] at found
    rcases inv.owned found active with left | ⟨i, waits⟩
    · exact .inl left
    · have lt := (List.getElem?_eq_some_iff.1 waits).1
      refine .inr ⟨i, ?_⟩
      rw [came, List.getElem?_append_left lt, waits]
  successive := by
    rw [downloads]
    exact inv.successive

theorem Owned.of_phase {job : Download} {phase : Phase} (inv : Owned s)
    (callers : t.callers = s.callers) (pending : t.pending = s.pending)
    (found : s.downloads[d]? = some job) (active : job.phase.isOver = false)
    (downloads : t.downloads = s.downloads.modify d fun job => { job with phase }) : Owned t := by
  have old {e : Nat} {new : Download} (h : t.downloads[e]? = some new) :
      ∃ before, s.downloads[e]? = some before ∧ before.version = new.version ∧
        (before.phase.isOver = false ∨ before = new) := by
    rw [downloads, List.getElem?_modify] at h
    by_cases eq : d = e
    · subst eq
      simp only [if_true, found, Option.map_eq_map, Option.map_some, Option.some.injEq] at h
      subst h
      exact ⟨job, found, rfl, .inl active⟩
    · simp only [if_neg eq, Option.map_eq_map, Option.map_id'] at h
      exact ⟨new, h, rfl, .inr rfl⟩
  refine ⟨?single, ?owned, ?successive⟩
  case single =>
    rw [callers, pending]
    exact inv.single
  case owned =>
    intro e new at_e goes_on
    obtain ⟨before, was, version, h⟩ := old at_e
    rw [callers, pending, ← version]
    refine inv.owned was ?_
    rcases h with h | rfl
    · exact h
    · exact goes_on
  case successive =>
    intro i j earlier later lt at_i at_j same
    obtain ⟨first, was, version, h⟩ := old at_i
    obtain ⟨second, was', version', -⟩ := old at_j
    have ended := inv.successive lt was was' (by rw [version, version', same])
    rcases h with h | rfl
    · rw [ended] at h
      cases h
    · exact ended

theorem Owned.of_takeOver (inv : Owned s) (here : s.callers[c]? = some ⟨v, x⟩)
    (left : Table.find? v s.pending = some d) (before : x.waitsFor? = none)
    (moved : t.callers = s.callers.set c ⟨v, .waiting d⟩)
    (pending : t.pending = Table.remove v s.pending) (downloads : t.downloads = s.downloads) :
    Owned t where
  single := by
    intro i e w waits
    rw [pending]
    by_cases eq : w = v
    · subst eq
      exact Table.find?_remove_self ..
    · rw [Table.find?_remove_ne eq]
      rcases caller_of_set here moved waits with ⟨rfl, h⟩ | ⟨-, old⟩
      · cases h
        exact absurd rfl eq
      · exact inv.single old
  owned := by
    intro e job found active
    rw [pending]
    rw [downloads] at found
    rcases inv.owned found active with was_left | ⟨i, waits⟩
    · by_cases eq : job.version = v
      · rw [eq, left] at was_left
        cases was_left
        rw [eq]
        exact .inr ⟨c, getElem?_callers_set here moved⟩
      · rw [Table.find?_remove_ne eq]
        exact .inl was_left
    · exact .inr ⟨i, waits_behind_set here moved (by simp [before]) waits⟩
  successive := by
    rw [downloads]
    exact inv.successive

theorem Owned.over_of_free {stages : Stage μ → Bool} (inv : Owned s) (turns : HaveTurn stages s)
    (here : s.callers[c]? = some ⟨v, x⟩) (turn : stages x = true)
    (waits : ∀ d, stages (.waiting d) = true) (before : x.waitsFor? = none)
    (free : Table.find? v s.pending = none) {e : Nat} {job : Download}
    (found : s.downloads[e]? = some job) (same : job.version = v) : job.phase.isOver = true := by
  cases active : job.phase.isOver with
  | true => rfl
  | false =>
    rcases inv.owned found active with left | ⟨i, waiting⟩
    · rw [same, free] at left
      cases left
    · rw [same] at waiting
      have eq := turns.unique here turn waiting (waits e)
      subst eq
      rw [here] at waiting
      cases waiting
      cases before

theorem Owned.of_start (inv : Owned s) (turns : HaveTurn Stage.isFetching s)
    (here : s.callers[c]? = some ⟨v, .inspect⟩) (free : Table.find? v s.pending = none)
    (moved : t.callers = s.callers.set c ⟨v, .waiting s.downloads.length⟩)
    (pending : t.pending = s.pending)
    (downloads : t.downloads = s.downloads ++ [⟨v, .running⟩]) : Owned t where
  single := by
    intro i e w waits
    rw [pending]
    rcases caller_of_set here moved waits with ⟨rfl, eq⟩ | ⟨-, old⟩
    · cases eq
      exact free
    · exact inv.single old
  owned := by
    intro e job found active
    rw [pending]
    rw [downloads] at found
    rcases of_getElem?_concat found with ⟨rfl, rfl⟩ | old
    · exact .inr ⟨c, getElem?_callers_set here moved⟩
    · rcases inv.owned old active with left | ⟨i, waits⟩
      · exact .inl left
      · exact .inr ⟨i, waits_behind_set here moved nofun waits⟩
  successive := by
    intro i j earlier later lt at_i at_j same
    rw [downloads] at at_i at_j
    rcases of_getElem?_concat at_i with ⟨rfl, rfl⟩ | old
    · -- no download comes behind the new one
      have bound := (List.getElem?_eq_some_iff.1 at_j).1
      rw [List.length_append, List.length_singleton] at bound
      omega
    · rcases of_getElem?_concat at_j with ⟨rfl, rfl⟩ | old'
      · exact inv.over_of_free turns here rfl (fun _ => rfl) rfl free old same
      · exact inv.successive lt old old' same

theorem Owned.of_giveUp (inv : Owned s) (turns : HaveTurn Stage.isFetching s)
    (here : s.callers[c]? = some ⟨v, .waiting d⟩)
    (moved : t.callers = s.callers.set c ⟨v, y⟩) (behind : y.waitsFor? = none)
    (pending : t.pending = Table.put v d s.pending) (downloads : t.downloads = s.downloads) :
    Owned t where
  single := by
    intro i e w waits
    obtain ⟨other, old⟩ := waits_of_set here moved behind waits
    have ne : w ≠ v := by
      intro eq
      subst eq
      exact other (turns.unique here rfl old rfl)
    rw [pending, Table.find?_put_ne ne]
    exact inv.single old
  owned := by
    intro e job found active
    rw [pending]
    rw [downloads] at found
    rcases inv.owned found active with left | ⟨i, waits⟩
    · have ne : job.version ≠ v := by
        intro eq
        rw [eq, inv.single here] at left
        cases left
      rw [Table.find?_put_ne ne]
      exact .inl left
    · by_cases eq : i = c
      · subst eq
        rw [here] at waits
        cases waits
        exact .inl (Table.find?_put_self ..)
      · exact .inr ⟨i, (getElem?_callers_set_ne eq moved).trans waits⟩
  successive := by
    rw [downloads]
    exact inv.successive

end

theorem State.phase?_eq (s : State μ) (d : Nat) :
    s.phase? d = (s.downloads[d]?).map Download.phase := rfl

theorem State.setPhase_received_over (s : State μ) (d : Nat) {job : Download}
    (h : (s.setPhase d .received).downloads[d]? = some job) : job.phase.isOver = true := by
  simp only [State.setPhase, List.getElem?_modify, if_true] at h
  obtain ⟨old, -, rfl⟩ := Option.map_eq_some_iff.1 h
  rfl

theorem Owned.of_receive {c d : Nat} {v : Version} {verdict : Verdict} {y : Stage μ}
    (inv : Owned s) (here : s.callers[c]? = some ⟨v, .waiting d⟩)
    (sent : s.phase? d = some (.sent verdict))
    (moved : t.callers = s.callers.set c ⟨v, y⟩) (pending : t.pending = s.pending)
    (downloads : t.downloads = (s.setPhase d .received).downloads)
    (behind : y.waitsFor? = none) : Owned t := by
  obtain ⟨job, found, phase⟩ := Option.map_eq_some_iff.1 sent
  have received : Owned (s.setPhase d .received) :=
    inv.of_phase rfl rfl found (by rw [phase]; rfl) rfl
  refine received.of_set here moved pending downloads (fun e eq job h => ?_) behind
  cases eq
  exact s.setPhase_received_over d h

theorem Transition.owned (h : Transition setup s a t) (turns : HaveTurn Stage.isFetching s)
    (inv : Owned s) : Owned t := by
  cases h with
  | get v => exact inv.of_append rfl rfl rfl rfl
  | insert v m => exact inv.of_append rfl rfl rfl rfl
  | takeOver here left => exact inv.of_takeOver here left rfl rfl rfl rfl
  | start here free => exact inv.of_start turns here free rfl rfl rfl
  | installed here sent => exact inv.of_receive here sent rfl rfl rfl rfl
  | failed here sent => exact inv.of_receive here sent rfl rfl rfl rfl
  | orphaned here dead =>
    refine inv.of_set here rfl rfl rfl (fun e eq job found => ?_) rfl
    cases eq
    simp only [State.phase?_eq, found, Option.map_some, Option.some.injEq] at dead
    rw [dead]
    rfl
  | giveUp here => exact inv.of_giveUp turns here rfl rfl rfl rfl
  | hit here | miss here | turn here | hitBehind here | missBehind here | cached here
  | unprepared here | offline here | confirmed here | vanished here | adoptFirst here
  | adoptLater here | publish here | leave here | loaded here | unloadable here =>
    exact inv.of_set here rfl rfl rfl nofun rfl
  | write => exact ⟨inv.single, inv.owned, inv.successive⟩
  | unwritable here | finish here | die here | settle here | send here =>
    exact inv.of_phase rfl rfl here rfl rfl

end ContractBuild.Registry
