import ContractBuild.Text.Classes
import ContractBuild.Text.Split

/-! What the start of an import path stands for, written `context:prefix=target`. A remapping
without a context holds everywhere. -/

namespace ContractBuild

structure Remapping where
  context : Option String
  name : String
  path : String
  deriving DecidableEq, Repr

namespace Remapping

inductive Fault
  | noSeparator (text : String)
  | emptyName (text : String)
  | emptyPath (text : String)
  deriving DecidableEq, Repr

def Fault.message : Fault → String
  | noSeparator text =>
    Text.inTicks text ++ " is not a remapping, expected `[context:]prefix=target`"
  | emptyName text => Text.inTicks text ++ " remaps an empty prefix"
  | emptyPath text => Text.inTicks text ++ " remaps to an empty target"

def everywhere (name path : String) : Remapping := ⟨none, name, path⟩

def installDirectory : String := "installed_contracts"

def installedPackage (package : String) : Remapping :=
  everywhere (package ++ "/") (installDirectory ++ "/" ++ package ++ "/contracts/")

def scope (left : List Char) : Option (List Char) × List Char :=
  match Text.splitOnce ':' left with
  | some (context, name) => (if context.all Text.isBlank then none else some context, name)
  | none => (none, left)

/-- The first equals sign ends the name and the first colon before it the context. -/
def parse (text : String) : Except Fault Remapping :=
  match Text.splitOnce '=' text.toList with
  | none => .error (.noSeparator text)
  | some (left, path) =>
    let (context, name) := scope left
    if name.all Text.isBlank then .error (.emptyName text)
    else if path.all Text.isBlank then .error (.emptyPath text)
    else .ok ⟨context.map String.ofList, .ofList name, .ofList path⟩

def text (r : Remapping) : String :=
  match r.context with
  | some context => context ++ ":" ++ r.name ++ "=" ++ r.path
  | none => r.name ++ "=" ++ r.path

def order (a b : Remapping) : Ordering :=
  let contexts : Ordering := match a.context, b.context with
    | none, none => .eq
    | none, some _ => .lt
    | some _, none => .gt
    | some a, some b => compare a b
  contexts.then ((compare a.name b.name).then (compare a.path b.path))

def sort (remappings : List Remapping) : List Remapping :=
  remappings.mergeSort fun a b => a.order b != .gt

end Remapping
end ContractBuild
