import ContractBuild.Request
import ContractBuild.Response
import ContractBuild.Version

/-! What is reported of builds and installations while they run; and a place that is filled once,
such as that of the observer of these reports. -/

namespace ContractBuild

inductive Event
  | spawned (version : Version) (request : Request)
  /-- The compiler answered, and nothing in the answer is fatal. -/
  | finished (version : Version) (response : Response)
  | installStarted (version : Version)
  | installSucceeded (version : Version)
  | installFailed (version : Version) (reason : String)
  | unresolvedImports (paths : List String)
  deriving DecidableEq

namespace Event

inductive Stream
  | out
  | err
  deriving DecidableEq, Repr

def line? : Event → Option (Stream × String)
  | spawned version request =>
    some (.out, s!"Compiling {request.sources.size} source file(s) with solc {version.text}")
  | finished version _ => some (.out, s!"solc {version.text} finished")
  | installStarted version => some (.out, s!"Fetching solc {version.text}...")
  | installSucceeded version => some (.out, s!"Installed solc {version.text}")
  | installFailed version reason =>
    some (.err, s!"Could not install solc {version.text}: {reason}")
  | unresolvedImports _ => none

end Event

inductive Note
  | event (e : Event)
  | message (text : String)
  deriving DecidableEq

structure Once (α : Type) where
  value : Option α
  deriving DecidableEq, Repr

namespace Once

variable {α : Type}

def empty : Once α := ⟨none⟩

def isFilled (o : Once α) : Bool := o.value.isSome

def fill (x : α) (o : Once α) : Except α (Once α) :=
  match o.value with
  | some _ => .error x
  | none => .ok ⟨some x⟩

def getOrFill (make : α) (o : Once α) : α × Once α :=
  match o.value with
  | some x => (x, o)
  | none => (make, ⟨some make⟩)

end Once

def secondReporter : String := "a reporter is already installed for this process"

end ContractBuild
