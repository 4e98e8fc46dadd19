import ContractBuild.Failure
import ContractBuild.Files
import ContractBuild.Once
import ContractBuild.Table

/-! Loaded compilers by version, and how they come there. Callers ask for a version at the same
time; each waits for its turn at the version, looks for the cached binary, has it downloaded by
a worker if it is missing, and loads it. A caller whose patience ends leaves the running download
to the next one. Every action is one step, and the steps of callers and workers come in any
order. -/

namespace ContractBuild.Registry

structure Setup where
  directory : String
  downloads : Bool
  timeout : Duration
  deriving DecidableEq, Repr

namespace Setup

def defaultTimeout : Duration := .seconds 600

def directoryBelow (home : String) : String := Path.join home ".mcashbox/solc"

def offline (directory : String) : Setup := ⟨directory, false, defaultTimeout⟩

def binaryName (v : Version) : String := "solc-v" ++ v.text

def binary (s : Setup) (v : Version) : String := Path.join s.directory (binaryName v)

def staging (s : Setup) (v : Version) : String :=
  Path.join s.directory (binaryName v ++ ".download")

end Setup

abbrev Verdict := Option String

inductive Phase
  | running
  | returned (verdict : Verdict)
  | settled (verdict : Verdict)
  | sent (verdict : Verdict)
  | received
  | dead
  deriving DecidableEq, Repr

structure Download where
  version : Version
  phase : Phase
  deriving DecidableEq

/-- Where a caller stands. From `recheck` to `leave` it has the turn at its version. -/
inductive Stage (μ : Type)
  | lookup
  | queue
  | recheck
  | inspect
  | waiting (download : Nat)
  | confirm
  | load
  | adopt (m : μ)
  | publish (m : μ)
  | leave (result : Except Failure μ)
  | done (result : Except Failure μ)

structure Caller (μ : Type) where
  version : Version
  stage : Stage μ

inductive Mark (μ : Type)
  | event (e : Event)
  | loaded (version : Version) (result : Except Failure μ)
  | uninstalled (m : μ)

structure State (μ : Type) where
  files : FileTree
  modules : List (Version × μ)
  /-- Whether the handlers of a first module were uninstalled. -/
  adopted : Bool
  /-- Downloads that outlived the callers that waited for them. -/
  pending : List (Version × Nat)
  turns : List (Version × Nat)
  callers : List (Caller μ)
  downloads : List Download
  history : List (Mark μ)

inductive Action (μ : Type)
  | get (version : Version)
  | insert (version : Version) (m : μ)
  | advance (caller : Nat)
  | giveUp (caller : Nat)
  | loaded (caller : Nat) (result : Except Failure μ)
  | write (download : Nat) (content : Bytes)
  | finish (download : Nat) (verdict : Verdict)
  | die (download : Nat)
  | settle (download : Nat)
  | send (download : Nat)

namespace State

variable {μ : Type}

def start (files : FileTree) : State μ := ⟨files, [], false, [], [], [], [], []⟩

def module? (s : State μ) (v : Version) : Option μ := Table.find? v s.modules

def isLoaded (s : State μ) (v : Version) : Bool := (s.module? v).isSome

def mark (s : State μ) (m : Mark μ) : State μ := { s with history := s.history ++ [m] }

def report (s : State μ) (e : Event) : State μ := s.mark (.event e)

def setCaller (s : State μ) (c : Nat) (caller : Caller μ) : State μ :=
  { s with callers := s.callers.set c caller }

def setPhase (s : State μ) (d : Nat) (phase : Phase) : State μ :=
  { s with downloads := s.downloads.modify d fun download => { download with phase } }

def phase? (s : State μ) (d : Nat) : Option Phase := (s.downloads[d]?).map (·.phase)

def answer? (s : State μ) (c : Nat) : Option (Except Failure μ) :=
  match s.callers[c]? with
  | some ⟨_, .done result⟩ => some result
  | _ => none

def move (s : State μ) (c : Nat) (v : Version) (stage : Stage μ) : State μ :=
  s.setCaller c ⟨v, stage⟩

def failWait (s : State μ) (c : Nat) (v : Version) (fault : DownloadFault) : State μ :=
  (s.report (.installFailed v fault.message)).move c v (.leave (.error (.download fault)))

end State

def clear (staging : String) (files : FileTree) : Except Failure Unit × FileTree :=
  if files.holds staging then
    match files.remove staging with
    | .ok files => (.ok (), files)
    | .error fault => (.error (.file fault staging), files)
  else (.ok (), files)

def prepare (setup : Setup) (v : Version) (files : FileTree) : Except Failure Unit × FileTree :=
  match files.createDirectories setup.directory with
  | (.ok (), files) => clear (setup.staging v) files
  | (.error fault, files) => (.error (.file fault setup.directory), files)

def settle (setup : Setup) (v : Version) (verdict : Verdict) (files : FileTree) :
    Verdict × FileTree :=
  let staging := setup.staging v
  let moved : Except String FileTree := match verdict with
    | some reason => .error reason
    | none =>
      if files.holds staging then
        (files.rename staging (setup.binary v)).mapError FileFault.message
      else .ok files
  match moved with
  | .ok files => (none, files)
  | .error reason => (some reason, (files.remove staging).toOption.getD files)

def deadWorker : String := "download task ended without a result"

variable {μ : Type}

/-- Takes over a running download, starts one, or goes on with the binary that is there. -/
def inspect (setup : Setup) (s : State μ) (c : Nat) (v : Version) : State μ :=
  match Table.find? v s.pending with
  | some d => { s with pending := Table.remove v s.pending }.move c v (.waiting d)
  | none =>
    if s.files.holds (setup.binary v) then s.move c v .load
    else if setup.downloads then
      match prepare setup v s.files with
      | (.error failure, files) => { s with files }.move c v (.leave (.error failure))
      | (.ok (), files) =>
        let started : State μ := { s with files, downloads := s.downloads ++ [⟨v, .running⟩] }
        (started.report (.installStarted v)).move c v (.waiting s.downloads.length)
    else s.move c v (.leave (.error (.configuration (.notInstalled v (setup.binary v)))))

def receive (s : State μ) (c : Nat) (v : Version) (d : Nat) : Option (State μ) :=
  match s.phase? d with
  | some (.sent none) =>
    some (((s.setPhase d .received).report (.installSucceeded v)).move c v .confirm)
  | some (.sent (some reason)) => some ((s.setPhase d .received).failWait c v (.failed v reason))
  | some .dead => some (s.failWait c v (.failed v deadWorker))
  | _ => none

def advance (setup : Setup) (s : State μ) (c : Nat) : Option (State μ) :=
  match s.callers[c]? with
  | none => none
  | some ⟨v, stage⟩ => match stage with
    | .lookup => some (match s.module? v with
      | some m => s.move c v (.done (.ok m))
      | none => s.move c v .queue)
    | .queue => match Table.find? v s.turns with
      | some _ => none
      | none => some ({ s with turns := Table.put v c s.turns }.move c v .recheck)
    | .recheck => some (match s.module? v with
      | some m => s.move c v (.leave (.ok m))
      | none => s.move c v .inspect)
    | .inspect => some (inspect setup s c v)
    | .waiting d => receive s c v d
    | .confirm =>
      let binary := setup.binary v
      some (s.move c v (if s.files.holds binary then .load
        else .leave (.error (.download (.missing v binary)))))
    | .load => none
    | .adopt m =>
      let s := if s.adopted then s else { s with adopted := true }.mark (.uninstalled m)
      some (s.move c v (.publish m))
    | .publish m =>
      some ({ s with modules := Table.put v m s.modules }.move c v (.leave (.ok m)))
    | .leave result =>
      let turns := if Table.find? v s.turns = some c then Table.remove v s.turns else s.turns
      some ({ s with turns }.move c v (.done result))
    | .done _ => none

/-- The caller stops waiting for a download that has sent nothing. -/
def giveUp (setup : Setup) (s : State μ) (c : Nat) : Option (State μ) :=
  match s.callers[c]? with
  | some ⟨v, .waiting d⟩ => match s.phase? d with
    | some .running | some (.returned _) | some (.settled _) =>
      some ({ s with pending := Table.put v d s.pending }.failWait c v (.timeout v setup.timeout))
    | _ => none
  | _ => none

def loaded (s : State μ) (c : Nat) (result : Except Failure μ) : Option (State μ) :=
  match s.callers[c]? with
  | some ⟨v, .load⟩ =>
    let s := s.mark (.loaded v result)
    some (match result with
      | .ok m => s.move c v (.adopt m)
      | .error failure => s.move c v (.leave (.error failure)))
  | _ => none

def work (setup : Setup) (s : State μ) (d : Nat) : Action μ → Option (State μ)
  | .write _ content => match s.downloads[d]? with
    | some ⟨v, .running⟩ => some (match s.files.write (setup.staging v) content with
      | .ok files => { s with files }
      | .error fault => s.setPhase d (.returned (some fault.message)))
    | _ => none
  | .finish _ verdict => match s.downloads[d]? with
    | some ⟨_, .running⟩ => some (s.setPhase d (.returned verdict))
    | _ => none
  | .die _ => match s.downloads[d]? with
    | some ⟨_, .running⟩ => some (s.setPhase d .dead)
    | _ => none
  | .settle _ => match s.downloads[d]? with
    | some ⟨v, .returned verdict⟩ =>
      let (verdict, files) := settle setup v verdict s.files
      some ({ s with files }.setPhase d (.settled verdict))
    | _ => none
  | .send _ => match s.downloads[d]? with
    | some ⟨_, .settled verdict⟩ => some (s.setPhase d (.sent verdict))
    | _ => none
  | _ => none

def step (setup : Setup) (s : State μ) : Action μ → Option (State μ)
  | .get v => some { s with callers := s.callers ++ [⟨v, .lookup⟩] }
  | .insert v m => some { s with callers := s.callers ++ [⟨v, .adopt m⟩] }
  | .advance c => advance setup s c
  | .giveUp c => giveUp setup s c
  | .loaded c result => loaded s c result
  | .write d content => work setup s d (.write d content)
  | .finish d verdict => work setup s d (.finish d verdict)
  | .die d => work setup s d (.die d)
  | .settle d => work setup s d (.settle d)
  | .send d => work setup s d (.send d)

def runActions (setup : Setup) : State μ → List (Action μ) → Option (State μ)
  | s, [] => some s
  | s, a :: rest => step setup s a >>= fun s => runActions setup s rest

end ContractBuild.Registry
