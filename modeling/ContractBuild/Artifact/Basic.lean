import ContractBuild.Json.Print
import ContractBuild.Json.Record

/-! What is kept of a compiled contract. -/

namespace ContractBuild

structure CompilerInfo where
  name : String
  version : String
  deriving DecidableEq, Repr

namespace CompilerInfo

def solc (version : String) : CompilerInfo := ⟨"solc", version⟩

def json (c : CompilerInfo) : Json := .record
  [("name", some (.string c.name)), ("version", some (.string c.version))]

open Json in
def reader : Reader CompilerInfo :=
  .record "CompilerInfo" <| CompilerInfo.mk <$> .required "name" .string
    <*> .required "version" .string

end CompilerInfo

structure Artifact where
  contractName : String
  sourcePath : String
  source : String
  sourceMap : Option String
  deployedSourceMap : Option String
  legacyAst : Option Json
  ast : Option Json
  abi : List Json
  bytecode : String
  deployedBytecode : String
  /-- The creation code once more, under the name that older tools look for. -/
  unlinkedBinary : String
  compiler : CompilerInfo
  deriving DecidableEq

namespace Artifact

def json (a : Artifact) : Json := .object
  [("contract_name", .string a.contractName),
   ("sourcePath", .string a.sourcePath),
   ("source", .string a.source),
   ("sourceMap", Json.ofOption .string a.sourceMap),
   ("deployedSourceMap", Json.ofOption .string a.deployedSourceMap),
   ("legacyAST", Json.ofOption id a.legacyAst),
   ("ast", Json.ofOption id a.ast),
   ("abi", .array a.abi),
   ("bytecode", .string a.bytecode),
   ("deployedBytecode", .string a.deployedBytecode),
   ("unlinked_binary", .string a.unlinkedBinary),
   ("compiler", a.compiler.json)]

open Json in
def reader : Reader Artifact :=
  .record "ContractArtifact" <| Artifact.mk <$> .required "contract_name" .string
    <*> .required "sourcePath" .string <*> .required "source" .string <*> .nullable "sourceMap" .string
    <*> .nullable "deployedSourceMap" .string <*> .nullable "legacyAST" .json
    <*> .nullable "ast" .json <*> .required "abi" Reader.json.list
    <*> .required "bytecode" .string <*> .required "deployedBytecode" .string
    <*> .required "unlinked_binary" .string <*> .required "compiler" CompilerInfo.reader

end Artifact

structure CompiledContracts where
  contracts : SortedMap String Artifact
  files : SortedMap UInt32 String
  deriving DecidableEq

namespace CompiledContracts

def empty : CompiledContracts := ⟨.empty, .empty⟩

def json (c : CompiledContracts) : Json := .object
  [("contracts", Json.ofMap Artifact.json c.contracts), ("files", Json.ofUInt32Map .string c.files)]

open Json in
def reader : Reader CompiledContracts :=
  .record "CompiledContracts" <| CompiledContracts.mk <$> .required "contracts" Artifact.reader.map
    <*> .required "files" Reader.string.uint32Map

end CompiledContracts

structure ParsedSource where
  contractNames : List String
  ast : Option Json
  deriving DecidableEq

namespace ParsedSource

def json (p : ParsedSource) : Json := .object
  [("contractNames", Json.ofStrings p.contractNames), ("ast", Json.ofOption id p.ast)]

open Json in
def reader : Reader ParsedSource :=
  .record "ParsedSource" <| ParsedSource.mk <$> .required "contractNames" Reader.string.list
    <*> .nullable "ast" .json

end ParsedSource
end ContractBuild
