import ContractBuild.Registry.Serve
import ContractBuild.Proofs.Registry.Attempts
import ContractBuild.Proofs.Registry.Rest

/-!
# A registry that goes on

What calls do at a registry does not depend on the calls that came before them, except for the
downloads and the turns that these have left. So a registry at rest serves a version that has no
download left as a new registry does into which the same modules were put: every run of the one is
a run of the other, with the later callers and downloads counted on from those that were there.
-/

namespace ContractBuild.Registry

variable {μ : Type} {setup : Setup} {s t old : State μ} {a : Action μ} {actions : List (Action μ)}
  {c d k : Nat} {v w : Version} {x : Stage μ}

def Stage.behind (k : Nat) : Stage μ → Stage μ
  | .waiting d => .waiting (k + d)
  | x => x

def Caller.behind (k : Nat) (caller : Caller μ) : Caller μ :=
  ⟨caller.version, caller.stage.behind k⟩

def Action.behind (c k : Nat) : Action μ → Action μ
  | .get v => .get v
  | .insert v m => .insert v m
  | .advance i => .advance (c + i)
  | .giveUp i => .giveUp (c + i)
  | .loaded i result => .loaded (c + i) result
  | .write d content => .write (k + d) content
  | .finish d verdict => .finish (k + d) verdict
  | .die d => .die (k + d)
  | .settle d => .settle (k + d)
  | .send d => .send (k + d)

/-- The state with the callers, the marks and the first downloads of another before its own. -/
def State.behind (s old : State μ) (k : Nat) : State μ where
  files := s.files
  modules := s.modules
  adopted := s.adopted
  pending := old.pending ++ Table.mapValues (fun _ => (k + ·)) s.pending
  turns := old.turns ++ Table.mapValues (fun _ => (old.callers.length + ·)) s.turns
  callers := old.callers ++ s.callers.map (Caller.behind k)
  downloads := old.downloads.take k ++ s.downloads
  history := old.history ++ s.history

structure State.Free (s : State μ) (v : Version) : Prop where
  pending : Table.find? v s.pending = none
  turns : Table.find? v s.turns = none

section

variable (s old : State μ) (k : Nat)

end

section

variable (free : old.Free v) (s : State μ) (k : Nat)
include free

end

section

variable (free : old.Free v) (le : k ≤ old.downloads.length) (s : State μ) (c : Nat)
include free le

end

def State.Apart (s old : State μ) : Prop :=
  ∀ ⦃c : Nat⦄ ⦃v : Version⦄ ⦃x : Stage μ⦄, s.callers[c]? = some ⟨v, x⟩ → old.Free v

theorem Transition.apart (h : Transition setup s a t) (apart : s.Apart old)
    (free : ∀ v, a.version? = some v → old.Free v) : t.Apart old := by
  intro c v x here
  rcases h.caller_version here with asked | ⟨y, before⟩
  · exact free v asked
  · exact apart before

def State.rest (s : State μ) (k : Nat) : State μ :=
  { State.start s.files with
    modules := s.modules
    adopted := s.adopted
    downloads := s.downloads.drop k }

/-- A registry into which entries were put, with nothing else going on. -/
structure Filled (s : State μ) (entries : List (Version × μ)) (t : State μ) : Prop where
  files : t.files = s.files
  modules : t.modules = entries.foldl (fun found e => Table.put e.1 e.2 found) s.modules
  adopted : t.adopted = (s.adopted || !entries.isEmpty)
  pending : t.pending = s.pending
  turns : t.turns = s.turns
  downloads : t.downloads = s.downloads

end ContractBuild.Registry
