import ContractBuild.Artifact.Assembly
import ContractBuild.Compiler.Basic
import ContractBuild.Files
import ContractBuild.Request
import ContractBuild.Response.Terminal
import ContractBuild.Sources.Canonical

/-! From sources to artifacts in one run of a compiler: which compiler is used and how, the request
that a set of sources makes with it, and what becomes of the response. -/

namespace ContractBuild

structure Config where
  version : Option String
  evmVersion : EvmVersion
  optimizer : Optimizer
  deriving DecidableEq

namespace Config

def default : Config := ⟨none, .default, .default⟩

def defaultVersion : Version := .release 0 5 4

def supported : List Version := [.release 0 4 25, defaultVersion]

def compilerVersion (c : Config) : Except Failure Version :=
  let name := Text.trim (c.version.getD defaultVersion.text)
  match supported.find? fun v => v.text = name with
  | some v => .ok v
  | none => .error (.unsupportedVersion name (supported.map Version.text))

def json (c : Config) : Json := .record
  [("version", c.version.map .string), ("evmVersion", some (.string c.evmVersion.name)),
   ("optimizer", some c.optimizer.json)]

open Json in
def reader : Reader Config :=
  .record "SolcConfig" <| Config.mk <$> .optional "version" .string
    <*> .defaulted "evmVersion" (Reader.string.check EvmVersion.parse) .default
    <*> .defaulted "optimizer" Optimizer.reader .default

def load (files : FileTree) (path : String) : Except Failure Config := do
  let text ← (files.readText path).mapError fun fault => .file fault path
  (reader.runString text).mapError Failure.json

end Config

def Request.ofSources (sources : CanonicalSources) (config : Config) : Request :=
  { language := Request.solidity
    sources := SortedMap.map (fun _ text => ⟨text⟩) sources.texts
    settings := { Settings.select .artifacts with
      evmVersion := some config.evmVersion
      optimizer := some config.optimizer } }

structure BuildOptions where
  strict : Bool
  quiet : Bool
  deriving DecidableEq, Repr

def BuildOptions.default : BuildOptions := ⟨false, false⟩

namespace Build

variable {σ : Type}

abbrev Resolver (σ : Type) := Version → Job σ (Compiler σ)

def always (c : Compiler σ) : Resolver σ := fun _ => pure c

def resolve (config : Config) (resolver : Resolver σ) : Job σ (Version × Compiler σ) := do
  let version ← Job.ofExcept config.compilerVersion
  return (version, ← resolver version)

/-- Compiles all sources at once. No sources need no compiler, and a fatal diagnostic leaves no
artifact. -/
def compile (config : Config) (options : BuildOptions) (resolver : Resolver σ)
    (sources : SourceSet) : Job σ CompiledContracts := do
  let sources := CanonicalSources.ofSources sources
  if sources.isEmpty then return .empty
  let (version, compiler) ← resolve config resolver
  let request := Request.ofSources sources config
  Job.report (.spawned version request)
  let response ← compiler.invoke request none
  let triage := Triage.ofDiagnostics options.strict response.errors
  Job.log (triage.log options.quiet)
  match triage.verdict with
  | some messages => Job.fail (.rejected messages)
  | none => do
    Job.report (.finished version response)
    let name ← compiler.version
    Job.ofExcept (assemble response sources (.solc name))

end Build
end ContractBuild
