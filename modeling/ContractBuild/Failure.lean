import ContractBuild.Json.Reader
import ContractBuild.Number
import ContractBuild.Remapping
import ContractBuild.Version

/-! Why a task fails. Each cause has one text, and so has a span of time that was too short. -/

namespace ContractBuild

structure Duration where
  milliseconds : Nat
  deriving DecidableEq, Repr

namespace Duration

def seconds (n : Nat) : Duration := ⟨1000 * n⟩

def places (n : Nat) : List Char :=
  let shown := Digits.digits n
  ((List.replicate (3 - shown.length) '0' ++ shown).reverse.dropWhile (· = '0')).reverse

def text (d : Duration) : String :=
  if d.milliseconds = 0 then "0ns"
  else if d.milliseconds < 1000 then Digits.text d.milliseconds ++ "ms"
  else
    let fraction := places (d.milliseconds % 1000)
    let dot := if fraction.isEmpty then [] else ['.']
    .ofList (Digits.digits (d.milliseconds / 1000) ++ dot ++ fraction ++ ['s'])

end Duration

inductive CompilerFault
  | exited (complaint : String)
  | noVersion
  | notText (fault : Utf8.Fault)
  | refused (reason : String)
  deriving DecidableEq, Repr

def CompilerFault.message : CompilerFault → String
  | exited complaint => complaint
  | noVersion => "version not found in solc output"
  | notText fault => fault.message
  | refused reason => reason

inductive Misconfiguration
  | noEntryPoint (compiler : String)
  | entryPointNotExposed (compiler entry : String)
  | notInstalled (version : Version) (path : String)
  | dependenciesNotObject (found : String)
  | noHome
  | other (reason : String)
  deriving DecidableEq

def Misconfiguration.message : Misconfiguration → String
  | noEntryPoint compiler => compiler ++ " exposes no compile entry point"
  | entryPointNotExposed compiler entry =>
    Text.inTicks compiler ++ " does not expose " ++ Text.inTicks entry
  | notInstalled version path =>
    s!"solc {version.text} is not installed at {Text.inQuotes path} and no downloader is configured"
  | dependenciesNotObject found =>
    "`dependencies` of ethpm.json must be an object, found " ++ Text.inTicks found
  | noHome => "could not determine the home directory"
  | other reason => reason

inductive DownloadFault
  | failed (version : Version) (reason : String)
  | timeout (version : Version) (limit : Duration)
  | missing (version : Version) (path : String)
  deriving DecidableEq

def DownloadFault.message : DownloadFault → String
  | failed version reason => s!"failed to download solc {version.text}: {reason}"
  | timeout version limit =>
    s!"timed out after {limit.text} waiting for solc {version.text} to be downloaded"
  | missing version path =>
    s!"download of solc {version.text} completed but {Text.inQuotes path} does not exist"

inductive FileFault
  | notFound
  | notDirectory
  | isDirectory
  | alreadyExists
  | notEmpty
  | notPermitted
  | nameTooLong
  /-- A path holds the character that ends paths for the system. -/
  | nul
  | notText
  | other (reason : String)
  deriving DecidableEq, Repr

def FileFault.message : FileFault → String
  | notFound => "No such file or directory (os error 2)"
  | alreadyExists => "File exists (os error 17)"
  | notDirectory => "Not a directory (os error 20)"
  | isDirectory => "Is a directory (os error 21)"
  | notPermitted => "Permission denied (os error 13)"
  | nameTooLong => "File name too long (os error 36)"
  | notEmpty => "Directory not empty (os error 39)"
  | nul => "file name contained an unexpected NUL byte"
  | notText => "stream did not contain valid UTF-8"
  | other reason => reason

inductive Failure
  | compiler (fault : CompilerFault)
  | configuration (fault : Misconfiguration)
  | unsupportedVersion (version : String) (supported : List String)
  | rejected (messages : String)
  | download (fault : DownloadFault)
  | linkReference (library : String) (start length : Nat)
  | json (problem : Json.Problem)
  | file (fault : FileFault) (path : String)
  | remapping (fault : Remapping.Fault)
  | message (text : String)
  /-- Every run allowed brought imports that the run before did not have. -/
  | unsettled
  deriving DecidableEq

namespace Failure

def message? : Failure → Option String
  | compiler fault => some s!"Solc Error: {fault.message}"
  | configuration fault => some s!"Configuration error: {fault.message}"
  | unsupportedVersion version supported =>
    let known := ", ".intercalate supported
    some s!"unsupported solc version {Text.inTicks version}, supported versions are: {known}"
  | rejected messages => some messages
  | download fault => some fault.message
  | linkReference library start length =>
    some (s!"link reference {Text.inTicks library} at byte offset {start} " ++
      s!"does not fit into bytecode of {length} characters")
  | json problem => if problem.isNamed then some problem.message else none
  | file fault path => some s!"{Text.inQuotes path}: {fault.message}"
  | remapping fault => some fault.message
  | message text => some text
  | unsettled => some "imports are not settled"

/-- Whether the cause lies in the set-up, so that no other run can succeed either. -/
def isFatal : Failure → Bool
  | configuration _ | unsupportedVersion _ _ | download _ => true
  | _ => false

end Failure
end ContractBuild
