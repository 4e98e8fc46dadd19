import ContractBuild.Artifact.Basic
import ContractBuild.Compiler.Basic
import ContractBuild.Files
import ContractBuild.Imports
import ContractBuild.Response.Terminal

/-! Quick runs on one source: its imports, or its contracts and syntax tree. -/

namespace ContractBuild.SingleSource

variable {σ : Type}

def fileName : String := "ParsedContract.sol"

/-- An import that no project has, so that every run meets a missing source. -/
def sentinel : String := "__McashBox__NotFound.sol"

/-- The error that all imports are answered with, to be found again in the diagnostics. -/
def importKey : String := "MCASHBOX_IMPORT"

def stub : String := "pragma solidity >=0.4.0;"

def importsRequest (body : String) : Request :=
  Request.single fileName (body ++ "\n\nimport '" ++ sentinel ++ "';\n")
    (Settings.select (.emptyFor fileName))

def isImportReport (d : Diagnostic) : Bool := Text.contains importKey.toList d.formatted.toList

/-- The imports that the diagnostics report. Any diagnostic without the key is an error in the
source. -/
def importsOf (errors : List Diagnostic) : Except Failure (List String) :=
  let reported := Diagnostic.withoutAdvisories errors
  match reported.find? fun d => !isImportReport d with
  | some d => .error (.rejected d.formatted)
  | none => .ok ((reported.filterMap fun d => Imports.importIn? d.formatted).filter (· ≠ sentinel))

def imports (c : Compiler σ) (body : String) : Job σ (List String) := do
  let response ← c.invoke (importsRequest body) (some fun _ s => (.error importKey, s))
  let found ← Job.ofExcept (importsOf response.errors)
  Job.report (.unresolvedImports found)
  return found

/-- The text of an import as a path from the root of a project; a stub where there is none. -/
def readOrStub (files : FileTree) (root : Option String) (path : String) : String :=
  let found := do
    let path := Path.join (← root) path
    if files.isFile path then (files.readText path).toOption else none
  found.getD stub

def summary (file : String) (response : Response) : ParsedSource :=
  let source := response.sources.find? file
  let compiled := ((response.contracts.find? file).map SortedMap.keys).getD []
  let declared := (source.map SourceFile.contractNames).getD []
  { contractNames := if compiled.isEmpty then declared else compiled
    ast := (source >>= fun f => nonEmptyObject f.ast).or
      (source >>= fun f => nonEmptyObject f.legacyAst) }

def parsedOf (file : String) (response : Response) : Except Failure ParsedSource :=
  match (Diagnostic.withoutAdvisories response.errors).find? fun d => d.severity ≠ .warning with
  | some d => .error (.rejected d.formatted)
  | none => .ok (summary file response)

def parse (c : Compiler σ) (files : FileTree) (body : String) (name root : Option String) :
    Job σ ParsedSource := do
  let file := name.getD fileName
  let remappings ← Job.ofExcept (match root with
    | some root => Manifest.remappings files root
    | none => .ok [])
  let request := Request.single file body { Settings.select .astOnly with remappings }
  let response ← c.invoke request (some fun path s => (.contents (readOrStub files root path), s))
  Job.ofExcept (parsedOf file response)

end ContractBuild.SingleSource
