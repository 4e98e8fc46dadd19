import ContractBuild.Artifact.Basic
import ContractBuild.Artifact.DeclarationOrder
import ContractBuild.Failure
import ContractBuild.Response
import ContractBuild.Sources.Canonical

/-! Artifacts of a response. Bytecode is a text of two characters a byte behind `0x`, in which the
places of library addresses are marked. Paths go back to those of the caller, and of contracts with
one name the one of the greatest path counts. -/

namespace ContractBuild

namespace Link

def addressLength : Nat := 40

def placeholder (library : List Char) : List Char :=
  let marked := '_' :: '_' :: library
  marked ++ List.replicate (addressLength - marked.length) '_'

structure Reference where
  library : String
  start : Nat
  deriving DecidableEq, Repr

def references (found : LinkReferences) : List Reference :=
  found.values.flatMap fun libraries => libraries.entries.flatMap fun (library, offsets) =>
    offsets.map fun o => ⟨library, o.start.toNat⟩

def Reference.position (r : Reference) : Nat := 2 + 2 * r.start

def patch (code : List Char) (r : Reference) : Except Failure (List Char) :=
  let parts := do
    let (before, rest) ← Text.splitBytes r.position code
    let (_, after) ← Text.splitBytes addressLength rest
    some (before, after)
  match parts with
  | some (before, after) => .ok (before ++ placeholder r.library.toList ++ after)
  | none => .error (.linkReference r.library r.start (Text.utf8Length code))

def patchAll (code : List Char) (found : List Reference) : Except Failure (List Char) :=
  found.foldlM patch code

def placeholders (code : String) (found : LinkReferences) : Except Failure String :=
  (patchAll code.toList (references found)).map String.ofList

end Link

structure Declaration where
  path : String
  name : String
  contract : Contract
  file : Option SourceFile

namespace Declaration

def all (response : Response) : List Declaration :=
  response.contracts.entries.flatMap fun (path, contracts) =>
    contracts.entries.map fun (name, contract) =>
      ⟨path, name, contract, response.sources.find? path⟩

def linked : Option Bytecode → Except Failure String
  | some code => Link.placeholders ("0x" ++ code.object) code.linkReferences
  | none => .ok "0x"

def artifact (sources : CanonicalSources) (compiler : CompilerInfo) (d : Declaration) :
    Except Failure Artifact := do
  let legacyAst := d.file >>= SourceFile.legacyAst
  let ast := d.file >>= SourceFile.ast
  let bytecode ← linked d.contract.creation?
  let deployedBytecode ← linked d.contract.deployed?
  return {
    contractName := d.name
    sourcePath := (sources.path? d.path).getD d.path
    source := (sources.text? d.path).getD ""
    sourceMap := d.contract.creation? >>= Bytecode.sourceMap
    deployedSourceMap := d.contract.deployed? >>= Bytecode.sourceMap
    legacyAst
    ast
    abi := DeclarationOrder.order d.name legacyAst ast d.contract.abi
    bytecode
    deployedBytecode
    unlinkedBinary := bytecode
    compiler }

end Declaration

/-- Every contract has to yield its artifact, also one that a later path hides. -/
def assemble (response : Response) (sources : CanonicalSources) (compiler : CompilerInfo) :
    Except Failure CompiledContracts := do
  let artifacts ← (Declaration.all response).mapM fun d => d.artifact sources compiler
  return {
    contracts := .ofList (artifacts.map fun a => (a.contractName, a))
    files := .ofList (response.sources.entries.map fun (path, file) =>
      (file.id, (sources.path? path).getD path)) }

end ContractBuild
