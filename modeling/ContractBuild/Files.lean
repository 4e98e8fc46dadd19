import ContractBuild.Failure
import ContractBuild.Json.Print
import ContractBuild.SortedMap

/-! A tree of files without links. Places in it are lists of names from the root; the root is
always a directory. A path is a text with slashes between its names; it is walked name by name, and
each name but the last has to be a directory. The manifest of a project lists the packages that it
depends on. -/

namespace ContractBuild

namespace Path

def isAbsolute (path : String) : Bool := path.toList.head? = some '/'

def join (base path : String) : String :=
  if isAbsolute path then path
  else if base.isEmpty || base.toList.getLast? = some '/' then base ++ path
  else base ++ "/" ++ path

end Path

inductive FileTree.Entry
  | file (content : Bytes)
  | directory
  deriving DecidableEq, Repr

abbrev FileTree := SortedMap (List String) FileTree.Entry

namespace FileTree

abbrev Place := List String

def entry? (files : FileTree) (place : Place) : Option Entry :=
  if place.isEmpty then some .directory else files.find? place

def directory (files : FileTree) (place : Place) : Except FileFault Place :=
  match files.entry? place with
  | some .directory => .ok place
  | some (.file _) => .error .notDirectory
  | none => .error .notFound

def nameLimit : Nat := 255

def follow (files : FileTree) (place : Place) (name : String) : Except FileFault Place := do
  let place ← files.directory place
  if name = "" ∨ name = "." then .ok place
  else if name = ".." then .ok place.dropLast
  else if nameLimit < name.utf8ByteSize then .error .nameTooLong
  else .ok (place ++ [name])

def walk (files : FileTree) (names : List String) : Except FileFault Place :=
  names.foldlM files.follow []

def pathLimit : Nat := 4095

def names (path : String) : Except FileFault (List String) :=
  if path.toList.contains '\x00' then .error .nul
  else if pathLimit < path.utf8ByteSize then .error .nameTooLong
  else .ok ((Text.split '/' path.toList).map String.ofList)

def locate (files : FileTree) (path : String) : Except FileFault Place := do
  if path.isEmpty then .error .notFound else files.walk (← names path)

def lookup (files : FileTree) (path : String) : Except FileFault Entry := do
  match files.entry? (← files.locate path) with
  | some e => .ok e
  | none => .error .notFound

def holds (files : FileTree) (path : String) : Bool := (files.lookup path).toBool

def isFile (files : FileTree) (path : String) : Bool :=
  match files.lookup path with
  | .ok (.file _) => true
  | _ => false

def read (files : FileTree) (path : String) : Except FileFault Bytes := do
  match ← files.lookup path with
  | .file content => .ok content
  | .directory => .error .isDirectory

def readText (files : FileTree) (path : String) : Except FileFault String := do
  (Utf8.decode (← files.read path)).mapError fun _ => .notText

def write (files : FileTree) (path : String) (content : Bytes) : Except FileFault FileTree := do
  let place ← files.locate path
  let parent ← files.directory place.dropLast
  match files.entry? place with
  | some .directory => .error .isDirectory
  | _ => .ok (SortedMap.insert files (parent ++ place.getLast?.toList) (.file content))

/-- Makes one directory, of which all but the last name have to be there. Slashes at the end do
not count. -/
def createDirectory (files : FileTree) (names : List String) : Except FileFault FileTree :=
  match names.reverse.dropWhile (· = "") with
  | [] => .error .alreadyExists
  | last :: above => do
    let place ← files.follow (← files.walk above.reverse) last
    if last = "." ∨ last = ".." ∨ (files.entry? place).isSome then .error .alreadyExists
    else .ok (SortedMap.insert files place .directory)

def isDirectory (files : FileTree) (names : List String) : Bool :=
  match files.walk names with
  | .ok place => files.entry? place = some .directory
  | .error _ => false

def ensureDirectory (files : FileTree) (names : List String) : Except FileFault Unit × FileTree :=
  match files.createDirectory names with
  | .ok files => (.ok (), files)
  | .error fault => (if files.isDirectory names then .ok () else .error fault, files)

def starts : List String → List (List String)
  | [] => []
  | name :: rest => (starts rest).map (name :: ·) ++ [[name]]

/-- The names of a directory and of those above it, the nearest first. Dots and slashes at the
end are no directory of their own. -/
def andAbove (names : List String) : List (List String) :=
  let named := (starts names).filter fun start =>
    start.getLast? ≠ some "" ∧ start.getLast? ≠ some "."
  names :: named.drop 1 ++ [[]]

def ensureAll (files : FileTree) : List (List String) → Except FileFault Unit × FileTree
  | [] => (.error .notFound, files)
  | names :: above => match files.createDirectory names with
    | .error .notFound => match files.ensureAll above with
      | (.ok (), files) => files.ensureDirectory names
      | (.error fault, files) => (.error fault, files)
    | _ => files.ensureDirectory names

/-- Makes a directory and all above it. What was made before a fault stays. -/
def createDirectories (files : FileTree) (path : String) : Except FileFault Unit × FileTree :=
  match names path with
  | .ok names => files.ensureAll (andAbove names)
  | .error fault => (.error fault, files)

def remove (files : FileTree) (path : String) : Except FileFault FileTree := do
  let place ← files.locate path
  match files.entry? place with
  | some (.file _) => .ok (files.erase place)
  | some .directory => .error .isDirectory
  | none => .error .notFound

/-- Moves a file, onto another one if there is one, or a directory, onto an empty one. -/
def rename (files : FileTree) (source target : String) : Except FileFault FileTree := do
  let origin ← files.locate source
  let place ← files.locate target
  let _ ← files.directory place.dropLast
  match files.entry? origin, files.entry? place with
  | none, _ => .error .notFound
  | some (.file content), some (.file _) | some (.file content), none =>
    .ok (SortedMap.insert (files.erase origin) place (.file content))
  | some (.file _), some .directory => .error .isDirectory
  | some .directory, some (.file _) => .error .notDirectory
  | some .directory, _ =>
    if files.keys.any fun p => p ≠ place && place.isPrefixOf p then .error .notEmpty
    else .ok (.ofList (files.entries.map fun (p, e) =>
      (if origin.isPrefixOf p then place ++ p.drop origin.length else p, e)))

end FileTree

namespace Manifest

def fileName : String := "ethpm.json"

def remappingsOf (manifest : Json) : Except Failure (List Remapping) :=
  match manifest.get? "dependencies" with
  | none | some .null => .ok []
  | some (.object packages) => .ok (packages.map fun p => Remapping.installedPackage p.1)
  | some other => .error (.configuration (.dependenciesNotObject other.text))

def remappings (files : FileTree) (root : String) : Except Failure (List Remapping) := do
  let path := Path.join root fileName
  if files.isFile path then
    let text ← (files.readText path).mapError fun fault => .file fault path
    let manifest ← (Json.ofString? text).mapError Failure.json
    remappingsOf manifest
  else .ok []

end Manifest
end ContractBuild
