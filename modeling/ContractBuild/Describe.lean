import ContractBuild.Build
import ContractBuild.Compiler.Basic
import ContractBuild.Registry.Step
import ContractBuild.Text.Classes
import ContractBuild.Text.Split

/-! One-line descriptions of values, with the names of their fields. -/

namespace ContractBuild.Describe

def record (name : String) (fields : List (String × String)) (isOpen : Bool) : String :=
  let shown := fields.map fun f => f.1 ++ ": " ++ f.2
  name ++ " \x7b " ++ ", ".intercalate (if isOpen then shown ++ [".."] else shown) ++ " \x7d"

def identifiers (name : String) (parts : List Identifier) : String :=
  name ++ "(" ++ Text.quoted (.ofList (Identifier.join parts)) ++ ")"

def version (v : Version) : String :=
  let number (n : UInt64) := String.ofList (Version.number n)
  let numbers := [("major", number v.major), ("minor", number v.minor), ("patch", number v.patch)]
  let pre := if v.pre.isEmpty then [] else [("pre", identifiers "Prerelease" v.pre)]
  let build := if v.build.isEmpty then [] else [("build", identifiers "BuildMetadata" v.build)]
  record "Version" (numbers ++ pre ++ build) false

def list (items : List String) : String := "[" ++ ", ".intercalate items ++ "]"

def program (p : Program) (version : Option String) : String :=
  record "Solc"
    [("solc", Text.quoted p.path), ("args", list (p.arguments.map Text.quoted)),
     ("version", "OnceCell(" ++ version.elim "Uninit" Text.quoted ++ ")")] false

def registry {μ : Type} (setup : Registry.Setup) (s : Registry.State μ) : String :=
  let versions := (Version.sort (s.modules.map (·.1))).map version
  record "SolcRegistry"
    [("cache_dir", Text.quoted setup.directory), ("loaded", list versions),
     ("timeout", setup.timeout.text)] true

def options (o : BuildOptions) : String :=
  record "CompileOptions" [("strict", toString o.strict), ("quiet", toString o.quiet)] true

end ContractBuild.Describe
