import ContractBuild.Number
import ContractBuild.Text.Split

/-! Semantic versions: three numbers, the identifiers of a pre-release and those of a build. A
release is greater than its pre-releases, and a version without build parts is the least of
those that differ in them alone. -/

namespace ContractBuild
open Std

def isIdentifierChar (c : Char) : Bool := c.isAlphanum || c = '-'

structure Identifier where
  chars : List Char
  nonempty : chars ≠ []
  allowed : ∀ c ∈ chars, isIdentifierChar c
  deriving DecidableEq

namespace Identifier

def ofChars? (s : List Char) : Option Identifier :=
  if h : s ≠ [] ∧ s.all isIdentifierChar then some ⟨s, h.1, List.all_eq_true.1 h.2⟩ else none

def isNumber (i : Identifier) : Bool := i.chars.all Char.isDigit

def isPadded (i : Identifier) : Bool := i.isNumber && i.chars.length != 1 && i.chars.head? = some '0'

def significant (i : Identifier) : List Char := i.chars.dropWhile (· = '0')

/-- Numbers come before words; of equal numbers the longer one is greater. -/
def order (a b : Identifier) : Ordering :=
  match a.isNumber, b.isNumber with
  | true, false => .lt
  | false, true => .gt
  | false, false => compare a.chars b.chars
  | true, true =>
    (compare a.significant.length b.significant.length).then
      ((compare a.significant b.significant).then (compare a.chars.length b.chars.length))

def orderAll : List Identifier → List Identifier → Ordering
  | [], [] => .eq
  | [], _ :: _ => .lt
  | _ :: _, [] => .gt
  | a :: as, b :: bs => (a.order b).then (orderAll as bs)

def join (parts : List Identifier) : List Char :=
  (parts.map Identifier.chars).intersperse ['.'] |>.flatten

end Identifier

structure Version where
  major : UInt64
  minor : UInt64
  patch : UInt64
  pre : List Identifier
  build : List Identifier
  deriving DecidableEq

namespace Version

def release (major minor patch : UInt64) : Version := ⟨major, minor, patch, [], []⟩

def orderPre : List Identifier → List Identifier → Ordering
  | [], [] => .eq
  | [], _ :: _ => .gt
  | _ :: _, [] => .lt
  | a, b => Identifier.orderAll a b

def order (a b : Version) : Ordering :=
  (compare a.major b.major).then <| (compare a.minor b.minor).then <|
    (compare a.patch b.patch).then <| (orderPre a.pre b.pre).then <|
      Identifier.orderAll a.build b.build

def marked (mark : Char) (parts : List Identifier) : List Char :=
  if parts.isEmpty then [] else mark :: Identifier.join parts

def number (n : UInt64) : List Char := Digits.digits n.toNat

def chars (v : Version) : List Char :=
  number v.major ++ '.' :: number v.minor ++ '.' :: number v.patch ++ marked '-' v.pre ++
    marked '+' v.build

def text (v : Version) : String := .ofList v.chars

def numberOf? (s : List Char) : Option UInt64 :=
  if s = ['0'] ∨ s ≠ [] ∧ s.head? ≠ some '0' ∧ s.all Char.isDigit then
    let n := Digits.number s
    if n < UInt64.size then some (.ofNat n) else none
  else none

def identifiers? (padded : Bool) (s : List Char) : Option (List Identifier) :=
  (Text.split '.' s).mapM fun part => do
    let i ← Identifier.ofChars? part
    if i.isPadded && !padded then none else some i

def markedOf? (mark : Char) (padded : Bool) (s : List Char) :
    Option (List Char × List Identifier) :=
  match Text.splitOnce mark s with
  | some (before, parts) => (identifiers? padded parts).map (before, ·)
  | none => some (s, [])

def ofChars? (s : List Char) : Option Version := do
  let (s, build) ← markedOf? '+' true s
  let (s, pre) ← markedOf? '-' false s
  match Text.split '.' s with
  | [major, minor, patch] => do
    let major ← numberOf? major
    let minor ← numberOf? minor
    let patch ← numberOf? patch
    some { major, minor, patch, pre, build }
  | _ => none

def ofString? (s : String) : Option Version := ofChars? s.toList

def insertOrdered (v : Version) : List Version → List Version
  | [] => [v]
  | w :: rest => if v.order w = .gt then w :: insertOrdered v rest else v :: w :: rest

def sort (versions : List Version) : List Version := versions.foldr insertOrdered []

end Version
end ContractBuild
