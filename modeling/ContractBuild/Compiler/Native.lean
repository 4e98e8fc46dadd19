import ContractBuild.Compiler.Basic
import ContractBuild.Json.Print
import ContractBuild.Json.Reader

/-! Programs as compilers. They know the newer entry point only, and their version is asked for
until it is known. A program cannot ask for imports: the sources that a response reports missing are
asked for and added to the request, and the program runs again until a run brings nothing that can
be supplied. -/

namespace ContractBuild

namespace ImportLoop

variable {σ : Type}

/-- A request with the answers that were given for its imports; `supplied` tells that one of
them is new in the request. -/
structure Round where
  request : Json
  answers : ImportAnswers
  supplied : Bool

def ask (imports : Asked σ) (path : String) (r : Round) : Job σ Round :=
  if r.answers.contains path then pure r
  else do
    let answer ← Job.ofState (imports path)
    match answer with
    | .contents contents => do
      let request ← Job.ofExcept (Imports.addSource path contents r.request)
      pure ⟨request, r.answers.insert path answer, true⟩
    | .error _ => pure { r with answers := r.answers.insert path answer }

def askAll (imports : Asked σ) : List String → Round → Job σ Round
  | [], r => pure r
  | path :: rest, r => do askAll imports rest (← ask imports path r)

def response (p : Program) (launch : Launcher σ) (request : Json) : Job σ Json := do
  let output ← p.compileOutput launch (Utf8.encodeChars request.chars)
  Job.ofExcept ((Json.ofBytes? output).mapError Failure.json)

/-- At most so many runs. -/
def settle (p : Program) (launch : Launcher σ) (imports : Asked σ) :
    Nat → Json → ImportAnswers → Job σ String
  | 0, _, _ => Job.fail .unsettled
  | runs + 1, request, answers => do
    let found ← response p launch request
    let r ← askAll imports (Imports.missingSources found) ⟨request, answers, false⟩
    if r.supplied then settle p launch imports runs r.request r.answers
    else pure (Imports.withAnswers r.answers found).text

def compile (p : Program) (launch : Launcher σ) (runs : Nat) (input : String)
    (imports : Asked σ) : Job σ String := do
  let request ← Job.ofExcept ((Json.ofString? input).mapError Failure.json)
  settle p launch imports runs request .empty

end ImportLoop

namespace Program

variable {σ : Type}

structure Session (σ : Type) where
  version : Option String
  world : σ

def inWorld {α : Type} (job : Job σ α) : Job (Session σ) α := ⟨fun s =>
  let o := job.run s.world
  ⟨o.result, o.notes, { s with world := o.state }⟩⟩

def version (p : Program) (launch : Launcher σ) : Job (Session σ) String := do
  match (← Job.get).version with
  | some v => pure v
  | none => do
    let v ← inWorld (p.askVersion launch)
    Job.modify fun s => { s with version := some v }
    pure v

def exposes (entry : EntryPoint) : Bool := entry = .compileStandard

/-- Without imports to ask for, the input and the output of the program pass as they are. -/
def call (p : Program) (launch : Launcher σ) (runs : Nat) (entry : EntryPoint) (input : String)
    (imports : Option (Asked σ)) : Job σ String :=
  if exposes entry then
    match imports with
    | some imports => ImportLoop.compile p launch runs input imports
    | none => do
      let output ← p.compileOutput launch (Utf8.encode input)
      Job.ofExcept ((Utf8.decode output).mapError fun fault => .compiler (.notText fault))
  else Job.fail (.configuration (.entryPointNotExposed p.text entry.name))

def askedInWorld (imports : Asked (Session σ)) (version : Option String) : Asked σ :=
  fun path world =>
    let (answer, s) := imports path ⟨version, world⟩
    (answer, s.world)

def compiler (p : Program) (launch : Launcher σ) (runs : Nat) : Compiler (Session σ) where
  name := p.text
  exposes := exposes
  call entry input imports := ⟨fun s =>
    (inWorld (p.call launch runs entry input (imports.map (askedInWorld · s.version)))).run s⟩
  version := p.version launch

end Program
end ContractBuild
