import ContractBuild.Json.Print
import ContractBuild.Json.Record
import ContractBuild.Remapping

/-! Requests to a compiler: sources by name, and the settings they are compiled with. Settings are
the hard fork of the virtual machine, the optimizer, whose unknown keys are passed on as they are,
the outputs by file and by contract, and remappings. -/

namespace ContractBuild

inductive EvmVersion
  | homestead
  | tangerineWhistle
  | spuriousDragon
  | byzantium
  | constantinople
  | petersburg
  deriving DecidableEq, Repr

namespace EvmVersion

def all : List EvmVersion :=
  [homestead, tangerineWhistle, spuriousDragon, byzantium, constantinople, petersburg]

theorem mem_all (v : EvmVersion) : v ∈ all := by cases v <;> decide

def default : EvmVersion := byzantium

def name : EvmVersion → String
  | homestead => "homestead"
  | tangerineWhistle => "tangerineWhistle"
  | spuriousDragon => "spuriousDragon"
  | byzantium => "byzantium"
  | constantinople => "constantinople"
  | petersburg => "petersburg"

def ofName? (name : String) : Option EvmVersion := all.find? fun v => v.name = name

def unknown (name : String) : String := s!"Unknown evm version: {name}"

def parse (name : String) : Except String EvmVersion :=
  (ofName? name).elim (.error (unknown name)) .ok

def order (a b : EvmVersion) : Ordering := compare a.ctorIdx b.ctorIdx

end EvmVersion

structure Optimizer where
  enabled : Option Bool
  runs : Option UInt64
  extra : SortedMap String Json
  deriving DecidableEq

namespace Optimizer

def default : Optimizer := ⟨some false, some 200, .empty⟩

def json (o : Optimizer) : Json :=
  .object (([("enabled", o.enabled.map .bool), ("runs", o.runs.map .ofUInt64)].filterMap
    fun f => f.2.map (f.1, ·)) ++ o.extra.entries)

open Json in
def reader : Reader Optimizer :=
  .openRecord "Optimizer" <| Optimizer.mk <$> .optional "enabled" .bool <*> .optional "runs" .size
    <*> .others .json

end Optimizer

inductive OutputKind
  | ast
  | legacyAst
  | abi
  | bytecodeObject
  | bytecodeSourceMap
  | deployedBytecodeObject
  | deployedBytecodeSourceMap
  deriving DecidableEq, Repr

namespace OutputKind

def all : List OutputKind :=
  [ast, legacyAst, abi, bytecodeObject, bytecodeSourceMap, deployedBytecodeObject,
   deployedBytecodeSourceMap]

theorem mem_all (kind : OutputKind) : kind ∈ all := by cases kind <;> decide

def name : OutputKind → String
  | ast => "ast"
  | legacyAst => "legacyAST"
  | abi => "abi"
  | bytecodeObject => "evm.bytecode.object"
  | bytecodeSourceMap => "evm.bytecode.sourceMap"
  | deployedBytecodeObject => "evm.deployedBytecode.object"
  | deployedBytecodeSourceMap => "evm.deployedBytecode.sourceMap"

def ofName? (name : String) : Option OutputKind := all.find? fun kind => kind.name = name

def unknown (name : String) : String := s!"Invalid output selection: {name}"

def parse (name : String) : Except String OutputKind :=
  (ofName? name).elim (.error (unknown name)) .ok

def sort (kinds : List OutputKind) : List OutputKind :=
  kinds.mergeSort fun a b => a.ctorIdx ≤ b.ctorIdx

def json (kind : OutputKind) : Json := .string kind.name

def reader : Json.Reader OutputKind := Json.Reader.string.check parse

end OutputKind

abbrev OutputSelection := SortedMap String (SortedMap String (List OutputKind))

namespace OutputSelection

def wildcard : String := "*"

def artifacts : OutputSelection :=
  .singleton wildcard <| .ofList
    [("", [.legacyAst, .ast]),
     (wildcard, [.abi, .bytecodeObject, .bytecodeSourceMap, .deployedBytecodeObject,
       .deployedBytecodeSourceMap])]

def astOnly : OutputSelection := .singleton wildcard (.singleton "" [.ast])

/-- Nothing for this file, so that the compiler stops once imports are resolved. -/
def emptyFor (file : String) : OutputSelection := .singleton file (.singleton wildcard [])

def requestsNothing (selection : OutputSelection) : Bool :=
  selection.values.all fun file => file.values.all List.isEmpty

def json (selection : OutputSelection) : Json :=
  Json.ofMap (Json.ofMap (Json.ofList OutputKind.json)) selection

def reader : Json.Reader OutputSelection := OutputKind.reader.list.map.map

end OutputSelection

structure Settings where
  evmVersion : Option EvmVersion
  optimizer : Option Optimizer
  outputSelection : OutputSelection
  remappings : List Remapping
  deriving DecidableEq

namespace Settings

def select (selection : OutputSelection) : Settings := ⟨none, none, selection, []⟩

def json (s : Settings) : Json := .record
  [("evmVersion", s.evmVersion.map fun v => .string v.name),
   ("optimizer", s.optimizer.map Optimizer.json),
   ("outputSelection", some s.outputSelection.json),
   ("remappings", Json.unlessEmpty (fun r => .string r.text) s.remappings)]

def remappingReader : Json.Reader Remapping :=
  Json.Reader.string.check fun text => (Remapping.parse text).mapError Remapping.Fault.message

open Json in
def reader : Reader Settings :=
  .record "Settings" <| Settings.mk
    <$> .optional "evmVersion" (Reader.string.check EvmVersion.parse)
    <*> .optional "optimizer" Optimizer.reader
    <*> .defaulted "outputSelection" OutputSelection.reader .empty
    <*> .defaulted "remappings" remappingReader.list []

end Settings

structure Source where
  content : String
  deriving DecidableEq, Repr

namespace Source

def json (s : Source) : Json := .record [("content", some (.string s.content))]

open Json in
def reader : Reader Source := .record "Source" <| Source.mk <$> .required "content" .string

end Source

structure Request where
  language : String
  sources : SortedMap String Source
  settings : Settings
  deriving DecidableEq

namespace Request

def solidity : String := "Solidity"

def single (file content : String) (settings : Settings) : Request :=
  ⟨solidity, .singleton file ⟨content⟩, settings⟩

def json (r : Request) : Json := .record
  [("language", some (.string r.language)),
   ("sources", some (Json.ofMap Source.json r.sources)),
   ("settings", some r.settings.json)]

def text (r : Request) : String := r.json.text

open Json in
def reader : Reader Request :=
  .record "CompilerInput" <| Request.mk <$> .required "language" .string
    <*> .required "sources" Source.reader.map
    <*> .required "settings" Settings.reader

end Request
end ContractBuild
