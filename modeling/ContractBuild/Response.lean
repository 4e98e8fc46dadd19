import ContractBuild.Json.Print
import ContractBuild.Json.Record
import ContractBuild.Number

/-! Responses of a compiler: diagnostics in the order of their report, trees by file, and the code
and the interface of every contract. -/

namespace ContractBuild

structure Offsets where
  start : UInt32
  length : UInt32
  deriving DecidableEq, Repr

namespace Offsets

def json (o : Offsets) : Json := .record
  [("start", some (.ofUInt32 o.start)), ("length", some (.ofUInt32 o.length))]

open Json in
def reader : Reader Offsets :=
  .record "Offsets" <| Offsets.mk <$> .required "start" .uint32 <*> .required "length" .uint32

end Offsets

abbrev LinkReferences := SortedMap String (SortedMap String (List Offsets))

namespace LinkReferences

def json (references : LinkReferences) : Json :=
  Json.ofMap (Json.ofMap (Json.ofList Offsets.json)) references

def reader : Json.Reader LinkReferences := Offsets.reader.list.map.map

end LinkReferences

structure Bytecode where
  object : String
  sourceMap : Option String
  linkReferences : LinkReferences
  deriving DecidableEq

namespace Bytecode

def json (b : Bytecode) : Json := .record
  [("object", some (.string b.object)), ("sourceMap", b.sourceMap.map .string),
   ("linkReferences", some b.linkReferences.json)]

open Json in
def reader : Reader Bytecode :=
  .record "Bytecode" <| Bytecode.mk <$> .defaulted "object" .string ""
    <*> .optional "sourceMap" .string
    <*> .defaulted "linkReferences" (LinkReferences.reader.option.getD .empty) .empty

def isUnlinked (b : Bytecode) : Bool :=
  b.linkReferences.values.any fun libraries => libraries.values.any fun offsets => !offsets.isEmpty

end Bytecode

structure Code where
  creation : Option Bytecode
  deployed : Option Bytecode
  deriving DecidableEq

namespace Code

def json (c : Code) : Json := .record
  [("bytecode", c.creation.map Bytecode.json), ("deployedBytecode", c.deployed.map Bytecode.json)]

open Json in
def reader : Reader Code :=
  .record "Evm" <| Code.mk <$> .optional "bytecode" Bytecode.reader
    <*> .optional "deployedBytecode" Bytecode.reader

end Code

structure Contract where
  abi : List Json
  code : Option Code
  deriving DecidableEq

namespace Contract

def creation? (c : Contract) : Option Bytecode := c.code >>= Code.creation

def deployed? (c : Contract) : Option Bytecode := c.code >>= Code.deployed

def json (c : Contract) : Json := .record
  [("abi", some (.array c.abi)), ("evm", c.code.map Code.json)]

open Json in
def reader : Reader Contract :=
  .record "Contract" <| Contract.mk <$> .defaulted "abi" (Reader.json.list.option.getD []) []
    <*> .optional "evm" Code.reader

end Contract

inductive Severity
  | error
  | warning
  | info
  deriving DecidableEq, Repr

namespace Severity

def name : Severity → String
  | error => "error"
  | warning => "warning"
  | info => "info"

def json (s : Severity) : Json := .string s.name

def reader : Json.Reader Severity :=
  .name [("error", error), ("warning", warning), ("info", info)]

end Severity

structure SourceLocation where
  file : String
  start : Int32
  stop : Int32
  deriving DecidableEq, Repr

namespace SourceLocation

def json (l : SourceLocation) : Json := .record
  [("file", some (.string l.file)), ("start", some (.ofInt32 l.start)),
   ("end", some (.ofInt32 l.stop))]

open Json in
def reader : Reader SourceLocation :=
  .record "SourceLocation" <| SourceLocation.mk <$> .required "file" .string
    <*> .required "start" .int32 <*> .required "end" .int32

end SourceLocation

structure Diagnostic where
  location : Option SourceLocation
  type : String
  component : String
  severity : Severity
  code : Option UInt64
  message : String
  formattedMessage : Option String
  deriving DecidableEq, Repr

namespace Diagnostic

def formatted (d : Diagnostic) : String := d.formattedMessage.getD d.message

def codeText (code : UInt64) : String := Digits.text code.toNat

def json (d : Diagnostic) : Json := .record
  [("sourceLocation", d.location.map SourceLocation.json),
   ("type", some (.string d.type)),
   ("component", some (.string d.component)),
   ("severity", some d.severity.json),
   ("errorCode", some (Json.ofOption (fun c => .string (codeText c)) d.code)),
   ("message", some (.string d.message)),
   ("formattedMessage", some (Json.ofOption .string d.formattedMessage))]

def codeReader : Json.Reader UInt64 :=
  Json.Reader.string.check fun text =>
    (Unsigned.read UInt64.size text.toList).mapError Unsigned.Fault.message |>.map UInt64.ofNat

open Json in
def reader : Reader Diagnostic :=
  .record "Error" <| Diagnostic.mk <$> .optional "sourceLocation" SourceLocation.reader
    <*> .defaulted "type" .string "" <*> .defaulted "component" .string ""
    <*> .required "severity" Severity.reader <*> .optional "errorCode" codeReader
    <*> .required "message" .string <*> .optional "formattedMessage" .string

def joinFormatted (diagnostics : List Diagnostic) : String :=
  ",".intercalate (diagnostics.map formatted)

end Diagnostic

/-- A tree that a compiler did not make may be there as an object without members. -/
def nonEmptyObject (tree : Option Json) : Option Json := tree.filter (· ≠ .object [])

structure SourceFile where
  id : UInt32
  ast : Option Json
  legacyAst : Option Json
  deriving DecidableEq

namespace SourceFile

def json (f : SourceFile) : Json := .record
  [("id", some (.ofUInt32 f.id)), ("ast", f.ast), ("legacyAST", f.legacyAst)]

open Json in
def reader : Reader SourceFile :=
  .record "SourceFile" <| SourceFile.mk <$> .required "id" .uint32 <*> .optional "ast" .json
    <*> .optional "legacyAST" .json

def contractNames (f : SourceFile) : List String :=
  let nodes := (f.ast >>= Json.get? "nodes" >>= Json.items?).getD []
  (nodes.filter fun node => node.text? "nodeType" = some "ContractDefinition").filterMap
    (Json.text? "name")

end SourceFile

structure Response where
  errors : List Diagnostic
  sources : SortedMap String SourceFile
  contracts : SortedMap String (SortedMap String Contract)
  deriving DecidableEq

namespace Response

def json (r : Response) : Json := .record
  [("errors", Json.unlessEmpty Diagnostic.json r.errors),
   ("sources", some (Json.ofMap SourceFile.json r.sources)),
   ("contracts", some (Json.ofMap (Json.ofMap Contract.json) r.contracts))]

open Json in
def reader : Reader Response :=
  .record "CompilerOutput" <| Response.mk <$> .defaulted "errors" Diagnostic.reader.list []
    <*> .defaulted "sources" SourceFile.reader.map .empty
    <*> .defaulted "contracts" Contract.reader.map.map .empty

def has (r : Response) (severity : Severity) : Bool := r.errors.any (·.severity = severity)

def contract? (r : Response) (path name : String) : Option Contract :=
  r.contracts.find? path >>= (·.find? name)

end Response
end ContractBuild
