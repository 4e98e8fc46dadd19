import ContractBuild.Response
import ContractBuild.Text.Split

/-! What a run shows of the diagnostics of a response: those that fail it, those that are only
logged, and how one looks on a terminal with colours. -/

namespace ContractBuild

namespace Diagnostic

def advisory : String :=
  "This is a pre-release compiler version, please do not use it in production."

def isAdvisory (d : Diagnostic) : Bool :=
  let holds (text : String) := Text.contains advisory.toList text.toList
  holds d.message || d.formattedMessage.any holds

def withoutAdvisories (diagnostics : List Diagnostic) : List Diagnostic :=
  diagnostics.filter fun d => !d.isAdvisory

end Diagnostic

structure Triage where
  fatal : List Diagnostic
  warnings : List Diagnostic
  deriving DecidableEq

namespace Triage

/-- Errors fail a run, and in strict mode warnings too. -/
def isFatal (strict : Bool) : Severity → Bool
  | .error => true
  | .warning => strict
  | .info => false

def isLogged (strict : Bool) (severity : Severity) : Bool := severity = .warning && !strict

def ofDiagnostics (strict : Bool) (diagnostics : List Diagnostic) : Triage :=
  let reported := Diagnostic.withoutAdvisories diagnostics
  ⟨reported.filter fun d => isFatal strict d.severity,
   reported.filter fun d => isLogged strict d.severity⟩

def header : String := "\nCompilation warnings encountered:\n"

def log (t : Triage) (quiet : Bool) : List String :=
  if quiet || t.warnings.isEmpty then [] else [header, Diagnostic.joinFormatted t.warnings]

def verdict (t : Triage) : Option String :=
  if t.fatal.isEmpty then none else some (Diagnostic.joinFormatted t.fatal)

end Triage

namespace Terminal

def inColour (code : String) (s : String) : String := s!"\x1b[{code}m{s}\x1b[0m"

def red (s : String) : String := inColour "31" s

def yellow (s : String) : String := inColour "33" s

def severity : Severity → String
  | .error => red "Error"
  | .warning => yellow "Warning"
  | .info => "Info"

def diagnostic (d : Diagnostic) : String :=
  match d.formattedMessage, d.severity with
  | some formatted, .error => red formatted
  | some formatted, _ => yellow formatted
  | none, s => s!"{severity s}: {d.message}\n"

end Terminal
end ContractBuild
