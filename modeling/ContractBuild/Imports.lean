import ContractBuild.Failure
import ContractBuild.Json.Basic
import ContractBuild.Text.Split

/-! Imports that a compiler reports missing. Names of sources in a message are those between `Source
"p" not found: ` and the rest of the line, or in a quoted import statement; each place of the
message is tried in turn, and the search goes on behind what was found. Once there are answers for
the names, they become part of the request and of the response. -/

namespace ContractBuild

namespace Imports

inductive Segment
  | other (c : Char)
  | missing (path reason : List Char)
  deriving DecidableEq, Repr

namespace Segment

def opening : List Char := ['S', 'o', 'u', 'r', 'c', 'e', ' ', '"']

def middle : List Char :=
  ['"', ' ', 'n', 'o', 't', ' ', 'f', 'o', 'u', 'n', 'd', ':', ' ']

def chars : Segment → List Char
  | other c => [c]
  | missing path reason => opening ++ path ++ middle ++ reason

def path? : Segment → Option (List Char)
  | other _ => none
  | missing path _ => some path

def report? (s : List Char) : Option (List Char × List Char) := do
  let rest ← Text.after? opening s
  let path := rest.takeWhile (· ≠ '"')
  let rest ← Text.after? middle (rest.dropWhile (· ≠ '"'))
  if path.isEmpty then none else some (path, rest.takeWhile (· ≠ '\n'))

def front (c : Char) (rest : List Char) : Segment :=
  match report? (c :: rest) with
  | some (path, reason) => missing path reason
  | none => other c

/-- The segments after the first `skip` characters. -/
def allFrom : Nat → List Char → List Segment
  | _, [] => []
  | skip + 1, _ :: rest => allFrom skip rest
  | 0, c :: rest => front c rest :: allFrom ((front c rest).chars.length - 1) rest

def all (message : List Char) : List Segment := allFrom 0 message

end Segment

def missingIn (message : String) : List String :=
  ((Segment.all message.toList).filterMap Segment.path?).map String.ofList

def isQuote (c : Char) : Bool := c = '"' || c = '\x27'

def statement? (s : List Char) : Option (List Char) := do
  let rest ← Text.after? ['i', 'm', 'p', 'o', 'r', 't'] s
  let clause := rest.takeWhile fun c => !isQuote c
  match rest.dropWhile fun c => !isQuote c with
  | _ :: rest =>
    let path := rest.takeWhile fun c => !isQuote c
    match rest.dropWhile fun c => !isQuote c with
    | _ :: ';' :: _ => if clause.isEmpty || path.isEmpty then none else some path
    | _ => none
  | [] => none

def firstStatement? : List Char → Option (List Char)
  | [] => none
  | c :: rest => (statement? (c :: rest)).or (firstStatement? rest)

def importIn? (message : String) : Option String :=
  match missingIn message with
  | path :: _ => some path
  | [] => (firstStatement? message.toList).map String.ofList

/-- The message with other reasons: `answer` gives the new reason for a path, if any. -/
def withReasons (answer : String → Option String) (message : String) : String :=
  let segment : Segment → List Char
    | .missing path reason => match answer (.ofList path) with
      | some new => (Segment.missing path new.toList).chars
      | none => (Segment.missing path reason).chars
    | other => other.chars
  .ofList ((Segment.all message.toList).flatMap segment)

end Imports

inductive ImportAnswer
  | contents (text : String)
  | error (reason : String)
  deriving DecidableEq, Repr

abbrev ImportAnswers := SortedMap String ImportAnswer

namespace ImportAnswers

def error? (answers : ImportAnswers) (path : String) : Option String :=
  match answers.find? path with
  | some (.error reason) => some reason
  | _ => none

end ImportAnswers

namespace Imports

def missingSources (response : Json) : List String :=
  let errors := (response.get? "errors" >>= Json.items?).getD []
  ((errors.filterMap (Json.text? "message")).flatMap missingIn).eraseDups

def onMember (key : String) (f : Json → Json) : Json → Json
  | .object members => .object (members.map fun m => if m.1 = key then (m.1, f m.2) else m)
  | x => x

def onItems (f : Json → Json) : Json → Json
  | .array items => .array (items.map f)
  | x => x

def onText (f : String → String) : Json → Json
  | .string s => .string (f s)
  | x => x

def withAnswers (answers : ImportAnswers) : Json → Json :=
  let amend := onText (withReasons answers.error?)
  onMember "errors" (onItems fun d =>
    onMember "formattedMessage" amend (onMember "message" amend d))

def addSource (path contents : String) (request : Json) : Except Failure Json :=
  match request, request.get? "sources" with
  | .object members, some (.object sources) =>
    let source := Json.object [("content", .string contents)]
    .ok (.object (Table.put "sources" (.object (Table.put path source sources)) members))
  | _, _ => .error (.message "compiler input has no sources")

end Imports
end ContractBuild
