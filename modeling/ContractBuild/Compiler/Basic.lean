import ContractBuild.Imports
import ContractBuild.Job
import ContractBuild.Text.Classes

/-! Compilers. A compiler takes a request as text through one of two entry points and answers with
text; on its way it may ask for the sources of imports. A program that is a compiler is run, and
tells its version. -/

namespace ContractBuild

inductive EntryPoint
  | compileStandard
  | compile
  deriving DecidableEq, Repr

def EntryPoint.name : EntryPoint → String
  | compileStandard => "compileStandard"
  | compile => "compile"

abbrev Asked (σ : Type) := String → σ → ImportAnswer × σ

structure Compiler (σ : Type) where
  name : String
  exposes : EntryPoint → Bool
  call : EntryPoint → String → Option (Asked σ) → Job σ String
  version : Job σ String

namespace Compiler

variable {σ : Type}

def entryPoint (c : Compiler σ) : Except Failure EntryPoint :=
  if c.exposes .compileStandard then .ok .compileStandard
  else if c.exposes .compile then .ok .compile
  else .error (.configuration (.noEntryPoint c.name))

def invoke (c : Compiler σ) (request : Request) (imports : Option (Asked σ)) :
    Job σ Response := do
  let entry ← Job.ofExcept c.entryPoint
  let answer ← c.call entry request.text imports
  Job.ofExcept ((Response.reader.runString answer).mapError Failure.json)

end Compiler

structure Exit where
  success : Bool
  output : Bytes
  complaint : Bytes
  deriving DecidableEq, Repr

abbrev Launcher (σ : Type) := List String → Option Bytes → σ → Except FileFault Exit × σ

structure Program where
  path : String
  arguments : List String
  deriving DecidableEq, Repr

namespace Program

def defaultPath : String := "solc"

def default (fromEnvironment : Option String) : Program := ⟨fromEnvironment.getD defaultPath, []⟩

def text (p : Program) : String := " ".intercalate (p.path :: p.arguments)

variable {σ : Type}

/-- No text that a process is started with may hold the character that ends it. -/
def canStart (p : Program) : Bool := (p.path :: p.arguments).all fun s => !s.toList.contains '\x00'

def run (p : Program) (launch : Launcher σ) (option : String) (input : Option Bytes) :
    Job σ Exit :=
  if p.canStart then ⟨fun s =>
    let (result, s) := launch (p.arguments ++ [option]) input s
    ⟨result.mapError fun fault => .file fault p.path, [], s⟩⟩
  else Job.fail (.file .nul p.path)

def outputOf (e : Exit) : Except Failure Bytes :=
  if e.success then .ok e.output
  else .error (.compiler (.exited (Utf8.decodeLossy e.complaint)))

def compileOutput (p : Program) (launch : Launcher σ) (input : Bytes) : Job σ Bytes := do
  Job.ofExcept (outputOf (← p.run launch "--standard-json" (some input)))

def linesOf : Bytes → List Bytes
  | [] => []
  | b :: rest =>
    if b = 10 then [] :: linesOf rest
    else match linesOf rest with
      | line :: lines => (b :: line) :: lines
      | [] => [[b]]

/-- The lines before the first that is not UTF-8. -/
def readableLines : List Bytes → List String
  | [] => []
  | line :: rest => match Utf8.decode line with
    | .ok text => text :: readableLines rest
    | .error _ => []

def versionMark : List Char := ['V', 'e', 'r', 's', 'i', 'o', 'n', ':', ' ']

def dropMarks : Nat → List Char → List Char
  | 0, s => s
  | n + 1, s => match Text.after? versionMark s with
    | some rest => dropMarks n rest
    | none => s

def versionIn (output : Bytes) : Except Failure String :=
  match ((readableLines (linesOf output)).filter fun line => !Text.allBlank line).getLast? with
  | some line =>
    let line := (Text.trim line).toList
    .ok (.ofList (dropMarks line.length line))
  | none => .error (.compiler .noVersion)

def askVersion (p : Program) (launch : Launcher σ) : Job σ String := do
  Job.ofExcept (outputOf (← p.run launch "--version" none) >>= versionIn)

end Program
end ContractBuild
