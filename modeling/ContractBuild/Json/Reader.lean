import ContractBuild.Json.Print
import ContractBuild.Json.Tree
import ContractBuild.SortedMap
import ContractBuild.Text.Classes
import ContractBuild.Text.Utf8

/-! Reading values of a type from JSON text. A reader walks the tree of the text from left to
right and stops at the first problem, be it one of the text or one of the value. -/

namespace ContractBuild.Json

inductive Found
  | null
  | bool (b : Bool)
  | number (n : Number)
  | string (s : String)
  | sequence
  | map
  deriving DecidableEq, Repr

def Found.text : Found → String
  | null => "null"
  | bool b => "boolean " ++ Text.inTicks (toString b)
  | number (.whole n least below) =>
    "integer " ++ Text.inTicks (.ofList (Number.whole n least below).chars)
  | number (.real x) => "floating point " ++ Text.inTicks (.ofList (Number.real x).chars)
  | string s => "string " ++ Text.quoted s
  | sequence => "sequence"
  | map => "map"

/-- `wrongType`, `wrongValue` and `wrongLength` say also what was expected. -/
inductive Problem
  | malformed (violation : Violation)
  | truncated (part : Part)
  | wrongType (found : Found) (expected : String)
  | wrongValue (found : Found) (expected : String)
  | wrongLength (length : Nat) (expected : String)
  | missingField (name : String)
  | duplicateField (name : String)
  | unknownName (given : String) (known : List String)
  | rejected (reason : String)
  deriving DecidableEq, Repr

namespace Problem

inductive Category
  | malformed
  | truncated
  | unfit
  deriving DecidableEq, Repr

def category : Problem → Category
  | malformed _ => .malformed
  | truncated _ => .truncated
  | _ => .unfit

def beforeNumber? (back : List Char) : Option (List Char) :=
  let digits := back.takeWhile Char.isDigit
  if digits.isEmpty ∨ UInt64.size ≤ Digits.number digits.reverse then none
  else some (back.dropWhile Char.isDigit)

/-- A place at the end of a reason, such as ` at line 3 column 4`, is taken for the place of the
problem and does not belong to its message. -/
def withoutPlace (reason : String) : String :=
  let before := do
    let back ← beforeNumber? reason.toList.reverse
    let back ← Text.after? " column ".toList.reverse back
    let back ← beforeNumber? back
    Text.after? " at line ".toList.reverse back
  before.elim reason fun back => .ofList back.reverse

def oneOf : List String → String
  | [] => "there are no variants"
  | [name] => "expected " ++ Text.inTicks name
  | [first, second] => s!"expected {Text.inTicks first} or {Text.inTicks second}"
  | names => "expected one of " ++ ", ".intercalate (names.map Text.inTicks)

def message : Problem → String
  | malformed violation => violation.message
  | truncated part => part.message
  | wrongType found expected => s!"invalid type: {found.text}, expected {expected}"
  | wrongValue found expected => s!"invalid value: {found.text}, expected {expected}"
  | wrongLength length expected => s!"invalid length {length}, expected {expected}"
  | missingField name => s!"missing field {Text.inTicks name}"
  | duplicateField name => s!"duplicate field {Text.inTicks name}"
  | unknownName given known => s!"unknown variant {Text.inTicks given}, {oneOf known}"
  | rejected reason => withoutPlace reason

/-- Whether the problem is with a name or with the reason of a check, so that its message tells
the fields and values of this library. -/
def isNamed : Problem → Bool
  | missingField _ | duplicateField _ | unknownName _ _ | rejected _ => true
  | _ => false

end Problem

def Fault.problem : Fault → Problem
  | .ended part => .truncated part
  | .endedInWord | .endedInNumber | .endedBeforeKey => .truncated .value
  | .endedInEscape => .truncated .string
  | .closedBeforeValue | .closedBeforeKey => .malformed .trailingComma
  | .badUnit => .malformed .badEscape
  | .violated violation => .malformed violation

def Fault.skipped : Fault → Problem
  | .endedInNumber => .malformed .badNumber
  | .endedBeforeKey => .truncated .object
  | .closedBeforeValue => .malformed .valueExpected
  | .closedBeforeKey => .malformed .keyNotText
  | f => f.problem

/-- The problem for those who look for one of several forms of a value by its first character: a
fault behind that character does not show yet. -/
def Fault.ahead : Fault → Problem
  | .ended part => .truncated part
  | .closedBeforeValue => .malformed .trailingComma
  | .violated .colonExpected => .malformed .colonExpected
  | _ => .malformed .valueExpected

def Fault.unpaired : Option Fault → Problem
  | some (.ended part) => .truncated part
  | some .endedInEscape => .truncated .string
  | some .badUnit => .malformed .badEscape
  | _ => .malformed .endOfEscape

def Fault.isKeyless : Fault → Bool
  | .endedBeforeKey | .closedBeforeKey | .violated .keyNotText => true
  | _ => false

def Quoted.keyless? (q : Quoted) : Option Fault := q.fault.filter Fault.isKeyless

def isHigh (unit : Nat) : Bool := 0xD800 ≤ unit && unit < 0xDC00

def isLow (unit : Nat) : Bool := 0xDC00 ≤ unit && unit < 0xE000

def pairUnits (high low : Nat) : Char :=
  Char.ofNat (0x10000 + (high - 0xD800) * 0x400 + (low - 0xDC00))

/-- The text of the pieces before `fault`. A first half of a pair needs the second behind it. -/
def joinPieces (fault : Option Fault) : List Piece → Except Problem (List Char)
  | [] => match fault with
    | none => .ok []
    | some f => .error f.problem
  | .plain c :: rest | .escaped c :: rest => (joinPieces fault rest).map (c :: ·)
  | .unit n :: rest =>
    if isLow n then .error (.malformed .loneSurrogate)
    else if isHigh n then
      match rest with
      | .unit low :: rest =>
        if isLow low then (joinPieces fault rest).map (pairUnits n low :: ·)
        else .error (.malformed .loneSurrogate)
      | [] => .error (Fault.unpaired fault)
      | _ => .error (.malformed .endOfEscape)
    else (joinPieces fault rest).map (Char.ofNat n :: ·)

def Quoted.text (q : Quoted) : Except Problem String :=
  (joinPieces q.fault q.pieces).map String.ofList

/-- The problem of a value of the wrong type. A scalar is read to its end first. -/
def Tree.mismatch (expected : String) : Tree → Problem
  | .broken f => f.problem
  | .null => .wrongType .null expected
  | .bool b => .wrongType (.bool b) expected
  | .number n => match n.value with
    | some n => .wrongType (.number n) expected
    | none => .malformed .outOfRange
  | .string q => match q.text with
    | .ok s => .wrongType (.string s) expected
    | .error p => p
  | .array _ => .wrongType .sequence expected
  | .object _ => .wrongType .map expected

mutual
/-- Walks over a part that is not asked for: surrogates need no partner, numbers have no range
and nesting has no limit there. -/
def Tree.skip : Tree → Except Problem Unit
  | .array items => items.skip
  | .object members => members.skip
  | .string q => match q.fault with
    | none => .ok ()
    | some f => .error f.skipped
  | .broken f => .error f.skipped
  | _ => .ok ()

def Items.skip : Items → Except Problem Unit
  | .done => .ok ()
  | .stopped f => .error f.skipped
  | .more head rest => do head.skip; rest.skip

def Members.skip : Members → Except Problem Unit
  | .done => .ok ()
  | .stopped f => .error f.skipped
  | .more key value rest => do
    match key.fault with
    | none => value.skip
    | some f => .error f.skipped
    rest.skip
end

def nestingLimit : Nat := 127

def Reader (α : Type) : Type := Nat → Tree → Except Problem α

def enter : Nat → Except Problem Nat
  | 0 => .error (.malformed .tooDeep)
  | depth + 1 => .ok depth

mutual
def Tree.json (depth : Nat) : Tree → Except Problem Json
  | .null => .ok .null
  | .bool b => .ok (.bool b)
  | .number n => match n.value with
    | some n => .ok (.number n)
    | none => .error (.malformed .outOfRange)
  | .string q => q.text.map .string
  | .array items => do return .array (← items.json (← enter depth))
  | .object members => do return ofMembers (← members.json (← enter depth))
  | .broken f => .error f.problem

def Items.json (depth : Nat) : Items → Except Problem (List Json)
  | .done => .ok []
  | .stopped f => .error f.problem
  | .more head rest => do return (← head.json depth) :: (← rest.json depth)

def Members.json (depth : Nat) : Members → Except Problem (List (String × Json))
  | .done => .ok []
  | .stopped f => .error f.problem
  | .more key value rest => do
    let key ← key.text
    let value ← value.json depth
    return (key, value) :: (← rest.json depth)
end

namespace Reader

def json : Reader Json := Tree.json

def string : Reader String := fun _ t => match t with
  | .string q => q.text
  | t => .error (t.mismatch "a string")

def bool : Reader Bool := fun _ t => match t with
  | .bool b => .ok b
  | t => .error (t.mismatch "a boolean")

def whole {α : Type} (expected : String) (accept : Int → Option α) : Reader α :=
  fun _ t => match t with
  | .number n => match n.value with
    | none => .error (.malformed .outOfRange)
    | some (.whole n least below) => match accept n with
      | some x => .ok x
      | none => .error (.wrongValue (.number (.whole n least below)) expected)
    | some (.real x) => .error (.wrongType (.number (.real x)) expected)
  | t => .error (t.mismatch expected)

def uint32Of (n : Int) : Option UInt32 :=
  if 0 ≤ n ∧ n < UInt32.size then some (.ofNat n.toNat) else none

def uint64Of (n : Int) : Option UInt64 :=
  if 0 ≤ n ∧ n < UInt64.size then some (.ofNat n.toNat) else none

def int32Of (n : Int) : Option Int32 :=
  if -2147483648 ≤ n ∧ n < 2147483648 then some (.ofInt n) else none

def uint32 : Reader UInt32 := whole "u32" uint32Of

def size : Reader UInt64 := whole "usize" uint64Of

def int32 : Reader Int32 := whole "i32" int32Of

def option {α : Type} (r : Reader α) : Reader (Option α) := fun depth t => match t with
  | .null => .ok none
  | t => (r depth t).map some

def getD {α : Type} (r : Reader (Option α)) (default : α) : Reader α := fun depth t =>
  (r depth t).map (·.getD default)

def check {α β : Type} (accept : α → Except String β) (r : Reader α) : Reader β := fun depth t => do
  match accept (← r depth t) with
  | .ok y => .ok y
  | .error reason => .error (.rejected reason)

def items {α : Type} (r : Reader α) (depth : Nat) : Items → Except Problem (List α)
  | .done => .ok []
  | .stopped f => .error f.problem
  | .more head rest => do return (← r depth head) :: (← items r depth rest)

def list {α : Type} (r : Reader α) : Reader (List α) := fun depth t => match t with
  | .array found => do r.items (← enter depth) found
  | t => .error (t.mismatch "a sequence")

def entries {κ α : Type} (key : Quoted → Except Problem κ) (r : Reader α) (depth : Nat) :
    Members → Except Problem (List (κ × α))
  | .done => .ok []
  | .stopped f => .error f.problem
  | .more k value rest => do
    let k ← key k
    let value ← r depth value
    return (k, value) :: (← entries key r depth rest)

def mapOf {κ α : Type} [Ord κ] [Std.TransOrd κ] [Std.LawfulEqOrd κ]
    (key : Quoted → Except Problem κ) (r : Reader α) : Reader (SortedMap κ α) :=
  fun depth t => match t with
  | .object members => do return .ofList (← entries key r (← enter depth) members)
  | t => .error (t.mismatch "a map")

def map {α : Type} (r : Reader α) : Reader (SortedMap String α) := mapOf Quoted.text r

def plainChars : List Piece → List Char
  | .plain c :: rest => c :: plainChars rest
  | _ => []

def uint32Key (q : Quoted) : Except Problem UInt32 :=
  let plain := plainChars q.pieces
  let whole := plain.length = q.pieces.length
  match q.keyless? with
  | some f => .error f.problem
  | none =>
    if plain.head?.any fun c => c = '-' || c.isDigit then
      match Numeral.scan plain with
      | .error .endedInNumber =>
        .error (if whole ∧ q.fault = some (.ended .string) then .truncated .value
          else .malformed .badNumber)
      | .error f => .error f.problem
      | .ok (n, rest) => do
        let n ← uint32 0 (.number n)
        if rest.isEmpty ∧ whole ∧ q.fault = none then .ok n else .error (.malformed .quoteExpected)
    else .error (.malformed .keyNotNumber)

def uint32Map {α : Type} (r : Reader α) : Reader (SortedMap UInt32 α) := mapOf uint32Key r

/-- One of the names of an enumeration; an object with that name as its only key and a null
beside it stands for the name. -/
def name {α : Type} (names : List (String × α)) : Reader α := fun depth t =>
  let choose (given : String) : Except Problem α := match names.find? (·.1 = given) with
    | some n => .ok n.2
    | none => .error (.unknownName given (names.map (·.1)))
  match t with
  | .string q => do choose (← q.text)
  | .object members => do
    let _ ← enter depth
    match members with
    | .done => .error (.malformed .keyNotText)
    | .stopped _ => .error (.truncated .value)
    | .more key value rest =>
      let x ← choose (← key.text)
      match value with
      | .null => match rest with
        | .done => .ok x
        | .stopped (.ended part) => .error (.truncated part)
        | _ => .error (.malformed .valueExpected)
      | value => .error (value.mismatch "unit")
  | .broken f => .error f.ahead
  | _ => .error (.malformed .valueExpected)

def run {α : Type} (r : Reader α) (text : List Char) : Except Problem α := do
  let (tree, rest) := Tree.ofText text
  let x ← r nestingLimit tree
  if (skipBlank rest).isEmpty then .ok x else .error (.malformed .trailingCharacters)

def runString {α : Type} (r : Reader α) (text : String) : Except Problem α := r.run text.toList

end Reader

def ofString? (text : String) : Except Problem Json := Reader.json.runString text

/-- How many characters stand behind the last opening quote of a text that ends inside quotes. The
number `owed` is that of the characters which belong to an escape. -/
def openLength (seen : Option Nat) (owed : Nat) : List Char → Option Nat
  | [] => seen
  | c :: rest => match seen, owed with
    | none, _ => openLength (if c = '"' then some 0 else none) 0 rest
    | some n, owed + 1 => openLength (some (n + 1)) owed rest
    | some n, 0 =>
      if c = '"' then openLength none 0 rest
      else if c = '\\' then
        match rest with
        | [] => some (n + 1)
        | e :: rest => openLength (some (n + 2)) (if e = 'u' then 4 else 0) rest
      else openLength (some (n + 1)) 0 rest

def readablePart : List Utf8.Chunk → List Char
  | .char c :: rest => c :: readablePart rest
  | _ => []

def marked : List Utf8.Chunk → List Char
  | [] => []
  | .char c :: rest => c :: marked rest
  | .invalid n :: rest | .truncated n :: rest => List.replicate n '\x7f' ++ marked rest

/-- The problem of a text that is not UTF-8. If its first unreadable byte stands in a quoted text,
that text is read first, be it only to find where it ends. -/
def unreadable (chunks : List Utf8.Chunk) : Problem :=
  let text := marked chunks
  let seen := (readablePart chunks).length + 1
  let inQuotes := match Reader.json.run (text.take seen) with
    | .error (.truncated .string) => openLength none 0 (text.take seen)
    | _ => none
  match inQuotes with
  | some n => match (scanQuoted (text.drop (seen - n))).1.text with
    | .ok _ => .malformed .badCodePoint
    | .error p => p
  | none => match Reader.json.run text with
    | .ok _ => .malformed .badCodePoint
    | .error p => p

def ofBytes? (bytes : Bytes) : Except Problem Json :=
  match Utf8.decode bytes with
  | .ok text => ofString? text
  | .error _ => .error (unreadable (Utf8.chunks bytes))

end ContractBuild.Json
