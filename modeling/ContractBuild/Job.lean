import ContractBuild.Failure
import ContractBuild.Once

/-! Tasks that change a state, say things on their way, and may fail. What was said and changed
before a failure stays. -/

namespace ContractBuild

structure Job.Outcome (σ α : Type) where
  result : Except Failure α
  notes : List Note
  state : σ

structure Job (σ α : Type) where
  run : σ → Job.Outcome σ α

namespace Job

variable {σ τ α β : Type}

def pure (x : α) : Job σ α := ⟨fun s => ⟨.ok x, [], s⟩⟩

def bind (job : Job σ α) (next : α → Job σ β) : Job σ β := ⟨fun s =>
  let first := job.run s
  match first.result with
  | .error failure => ⟨.error failure, first.notes, first.state⟩
  | .ok x =>
    let second := (next x).run first.state
    ⟨second.result, first.notes ++ second.notes, second.state⟩⟩

instance : Monad (Job σ) where
  pure := pure
  bind := bind

def ofExcept (result : Except Failure α) : Job σ α := ⟨fun s => ⟨result, [], s⟩⟩

def fail (failure : Failure) : Job σ α := ofExcept (.error failure)

def say (notes : List Note) : Job σ Unit := ⟨fun s => ⟨.ok (), notes, s⟩⟩

def report (e : Event) : Job σ Unit := say [.event e]

def log (messages : List String) : Job σ Unit := say (messages.map .message)

def get : Job σ σ := ⟨fun s => ⟨.ok s, [], s⟩⟩

def modify (f : σ → σ) : Job σ Unit := ⟨fun s => ⟨.ok (), [], f s⟩⟩

def ofState (f : σ → α × σ) : Job σ α := ⟨fun s => ⟨.ok (f s).1, [], (f s).2⟩⟩

@[simp] theorem run_pure (x : α) (s : σ) : (Pure.pure x : Job σ α).run s = ⟨.ok x, [], s⟩ := rfl

theorem run_bind (job : Job σ α) (next : α → Job σ β) (s : σ) :
    (job >>= next).run s = match (job.run s).result with
      | .error failure => ⟨.error failure, (job.run s).notes, (job.run s).state⟩
      | .ok x =>
        let second := (next x).run (job.run s).state
        ⟨second.result, (job.run s).notes ++ second.notes, second.state⟩ := rfl

end Job
end ContractBuild
