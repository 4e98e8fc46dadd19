import ContractBuild.Proofs.Registry.Insertion
import ContractBuild.Proofs.Registry.Renewal
import ContractBuild.Proofs.Registry.Visits

/-!
# After a call that failed

A call that fails leaves the table and the handlers as they were, and nothing of other versions. It
leaves a download of its own version exactly if its patience was lost, and the next call for the
version takes up this one. Without a download the registry is as good as a new one.
-/

namespace ContractBuild.Registry

variable {μ : Type} {setup : Setup} {s t u : State μ} {a : Action μ} {actions : List (Action μ)}
  {c d : Nat} {v w : Version} {x y : Stage μ}

/-- What a call at a stage has left as it was. It gets behind its look at the table only if the
version is not there, and what it registers it answers. -/
def Unchanged (v : Version) (s t : State μ) : Stage μ → Prop
  | .publish _ | .leave (.ok _) | .done (.ok _) => True
  | .lookup => t.modules = s.modules ∧ t.adopted = s.adopted
  | _ => t.modules = s.modules ∧ t.adopted = s.adopted ∧ s.module? v = none

structure Alone (v : Version) (s t : State μ) (x : Stage μ) : Prop where
  callers : t.callers = s.callers ++ [⟨v, x⟩]
  unchanged : Unchanged v s t x

theorem Alone.mover (idle : s.Idle) (alone : Alone v s t x) (h : Transition setup t a u)
    (mine : a.caller? = some c) (here : t.callers[c]? = some ⟨w, y⟩) :
    c = s.callers.length ∧ w = v ∧ y = x := by
  rcases caller_of_append alone.callers here with ⟨last, eq⟩ | old
  · exact ⟨last, Caller.mk.inj eq⟩
  · obtain ⟨result, rfl⟩ := idle.idleAt w old
    exact absurd rfl (h.underWay mine here result)

theorem Alone.of_set (alone : Alone v s t x)
    (moved : u.callers = t.callers.set s.callers.length ⟨v, y⟩) (unchanged : Unchanged v s u y) :
    Alone v s u y where
  callers := by
    rw [moved, alone.callers, List.set_append_right _ _ le_rfl, Nat.sub_self]
    rfl
  unchanged := unchanged

theorem Transition.alone (h : Transition setup t a u) (idle : s.Idle) (none : a.version? = none)
    (alone : Alone v s t x) : ∃ y, Alone v s u y := by
  -- the others have returned, so a caller that moves is the last one
  have own {c : Nat} {w : Version} {y : Stage μ} := alone.mover (c := c) (w := w) (y := y) idle h
  have kept := alone.unchanged
  cases h with
  | get | insert => cases none
  | write | unwritable | finish | die | settle | send =>
    exact ⟨x, alone.callers, by cases x <;> exact kept⟩
  | hit here | hitBehind here | publish here | adoptFirst here | adoptLater here =>
    obtain ⟨rfl, rfl, rfl⟩ := own rfl here
    exact ⟨_, alone.of_set rfl trivial⟩
  | miss here absent =>
    obtain ⟨rfl, rfl, rfl⟩ := own rfl here
    rw [State.module?, kept.1] at absent
    exact ⟨_, alone.of_set rfl ⟨kept.1, kept.2, absent⟩⟩
  | @leave _ _ result here =>
    obtain ⟨rfl, rfl, rfl⟩ := own rfl here
    cases result with
    | ok m => exact ⟨_, alone.of_set rfl trivial⟩
    | error failure => exact ⟨_, alone.of_set rfl kept⟩
  | turn here | missBehind here | takeOver here | cached here | start here | unprepared here
  | offline here | installed here | failed here | orphaned here | confirmed here | vanished here
  | giveUp here | loaded here | unloadable here =>
    obtain ⟨rfl, rfl, rfl⟩ := own rfl here
    exact ⟨_, alone.of_set rfl kept⟩

theorem Alone.idle {result : Except Failure μ} (idle : s.Idle)
    (alone : Alone v s t (.done result)) : t.Idle := by
  intro caller mem
  rw [alone.callers, List.mem_append, List.mem_singleton] at mem
  rcases mem with mem | rfl
  · exact idle caller mem
  · exact ⟨result, rfl⟩

theorem LetGo.cons {first : State μ} (h : LetGo setup first actions c v d)
    (moved : step setup s a = some first) : LetGo setup s (a :: actions) c v d := by
  obtain ⟨before, after, t, rfl, run, here⟩ := h
  exact ⟨a :: before, after, t, rfl, runActions_cons_iff.2 ⟨first, moved, run⟩, here⟩

def unsettled : List (Action Nat) :=
  [.insert (.release 0 4 26) 3, .advance 0, .advance 0, .advance 0, .get (.release 0 5 0),
    .advance 1, .advance 1, .advance 1, .advance 1, .giveUp 1, .advance 1]

end ContractBuild.Registry
