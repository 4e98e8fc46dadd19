import ContractBuild.SortedMap

/-! Source names that do not depend on the operating system. Backslashes become slashes, and a
drive letter becomes the first directory. -/

namespace ContractBuild

abbrev SourceSet := SortedMap String String

def slashes (path : List Char) : List Char := path.map fun c => if c = '\\' then '/' else c

def unixPath : List Char → List Char
  | drive :: ':' :: rest => '/' :: drive :: rest
  | path => path

def canonicalize (path : String) : String := .ofList (unixPath (slashes path.toList))

/-- Texts by canonical name, and the path that each of these names goes back to. -/
structure CanonicalSources where
  texts : SortedMap String String
  paths : SortedMap String String
  deriving DecidableEq

namespace CanonicalSources

def empty : CanonicalSources := ⟨.empty, .empty⟩

/-- A later path with the same canonical name takes the place of an earlier one. -/
def add (sources : CanonicalSources) (path text : String) : CanonicalSources where
  texts := sources.texts.insert (canonicalize path) text
  paths := sources.paths.insert (canonicalize path) path

def ofSources (sources : SourceSet) : CanonicalSources :=
  sources.entries.foldl (fun canonical e => canonical.add e.1 e.2) empty

def text? (sources : CanonicalSources) (name : String) : Option String := sources.texts.find? name

def path? (sources : CanonicalSources) (name : String) : Option String := sources.paths.find? name

def size (sources : CanonicalSources) : Nat := sources.texts.size

def isEmpty (sources : CanonicalSources) : Bool := sources.texts.isEmpty

end CanonicalSources
end ContractBuild
