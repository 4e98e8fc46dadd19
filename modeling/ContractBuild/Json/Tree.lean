import ContractBuild.Json.Numeral
import ContractBuild.Text.Split

/-! A JSON text as a tree of its tokens. A tree ends where the text stops being JSON, and says
why, so a reader that walks it from left to right meets problems in the order of the text. What
the tokens mean (the value of a number, the pairing of surrogates) is left to the reader. -/

namespace ContractBuild.Json

/-- A character of a quoted text: written as such, by its name behind a backslash, or as a UTF-16
unit, which can be half of a character. -/
inductive Piece
  | plain (c : Char)
  | escaped (c : Char)
  | unit (n : Nat)
  deriving DecidableEq, Repr

structure Quoted where
  pieces : List Piece
  fault : Option Fault
  deriving DecidableEq, Repr

def Quoted.push (piece : Piece) (q : Quoted) : Quoted := { q with pieces := piece :: q.pieces }

mutual
inductive Tree
  | null
  | bool (b : Bool)
  | number (n : Numeral)
  | string (q : Quoted)
  | array (items : Items)
  | object (members : Members)
  | broken (f : Fault)

inductive Items
  | done
  | stopped (f : Fault)
  | more (head : Tree) (rest : Items)

inductive Members
  | done
  | stopped (f : Fault)
  | more (key : Quoted) (value : Tree) (rest : Members)
end

def isBlank (c : Char) : Bool := c = ' ' || c = '\n' || c = '\t' || c = '\r'

def skipBlank (text : List Char) : List Char := text.dropWhile isBlank

def hexValue (c : Char) : Option Nat :=
  if c.isDigit then some (c.toNat - '0'.toNat)
  else if 'a' ≤ c ∧ c ≤ 'f' then some (c.toNat - 'a'.toNat + 10)
  else if 'A' ≤ c ∧ c ≤ 'F' then some (c.toNat - 'A'.toNat + 10)
  else none

def hexUnit (a b c d : Char) : Option Nat := do
  return ((← hexValue a) * 16 + (← hexValue b)) * 256 + (← hexValue c) * 16 + (← hexValue d)

def unescape (c : Char) : Option Char :=
  if c = '"' then some '"'
  else if c = '\\' then some '\\'
  else if c = '/' then some '/'
  else if c = 'b' then some '\x08'
  else if c = 'f' then some '\x0C'
  else if c = 'n' then some '\n'
  else if c = 'r' then some '\r'
  else if c = 't' then some '\t'
  else none

/-- Reads behind an opening quote. A unit in hexadecimal takes four bytes of the text. -/
def scanQuoted : List Char → Quoted × List Char
  | [] => (⟨[], some (.ended .string)⟩, [])
  | c :: rest =>
    if c = '"' then (⟨[], none⟩, rest)
    else if c = '\\' then
      match rest with
      | [] => (⟨[], some .endedInEscape⟩, [])
      | e :: rest =>
        if e = 'u' then
          match rest with
          | a :: b :: c :: d :: rest =>
            match hexUnit a b c d with
            | some n => ((scanQuoted rest).1.push (.unit n), (scanQuoted rest).2)
            | none => (⟨[], some .badUnit⟩, rest)
          | short =>
            (⟨[], some (if Text.utf8Length short < 4 then .endedInEscape else .badUnit)⟩, short)
        else match unescape e with
          | some c => ((scanQuoted rest).1.push (.escaped c), (scanQuoted rest).2)
          | none => (⟨[], some (.violated .badEscape)⟩, rest)
    else if c.toNat < 0x20 then (⟨[], some (.violated .controlCharacter)⟩, rest)
    else ((scanQuoted rest).1.push (.plain c), (scanQuoted rest).2)

def scanWord (found : Tree) : List Char → List Char → Tree × List Char
  | [], text => (found, text)
  | _ :: _, [] => (.broken .endedInWord, [])
  | w :: word, c :: text =>
    if w = c then scanWord found word text else (.broken (.violated .identExpected), text)

inductive Separator
  | comma
  | close
  | stopped (f : Fault)

def separator (closing : Char) (inside : Part) (goesOn : Violation) (text : List Char) :
    Separator × List Char :=
  match skipBlank text with
  | [] => (.stopped (.ended inside), [])
  | c :: rest =>
    if c = ',' then (.comma, rest)
    else if c = closing then (.close, rest)
    else (.stopped (.violated goesOn), rest)

def startsWith (c : Char) (text : List Char) : Bool := text.head? = some c

def Members.keyless (f : Fault) : Members := .more ⟨[], some f⟩ (.broken f) (.stopped f)

mutual
/-- Reads one value. Each call takes one unit of `fuel`; a text needs at most two units for each
character and two more. -/
def scanValue : Nat → List Char → Tree × List Char
  | 0, text => (.broken (.violated .valueExpected), text)
  | fuel + 1, text => match skipBlank text with
    | [] => (.broken (.ended .value), [])
    | c :: rest =>
      if c = '"' then (.string (scanQuoted rest).1, (scanQuoted rest).2)
      else if c = '[' then
        match skipBlank rest with
        | [] => (.array (.stopped (.ended .list)), [])
        | d :: later =>
          if d = ']' then (.array .done, later)
          else (.array (scanItems fuel rest).1, (scanItems fuel rest).2)
      else if c = '{' then
        match skipBlank rest with
        | [] => (.object (.stopped (.ended .object)), [])
        | d :: later =>
          if d = '}' then (.object .done, later)
          else (.object (scanMembers fuel rest).1, (scanMembers fuel rest).2)
      else if c = 'n' then scanWord .null ['u', 'l', 'l'] rest
      else if c = 't' then scanWord (.bool true) ['r', 'u', 'e'] rest
      else if c = 'f' then scanWord (.bool false) ['a', 'l', 's', 'e'] rest
      else if c = '-' ∨ c.isDigit then
        match Numeral.scan (c :: rest) with
        | .ok (n, rest) => (.number n, rest)
        | .error f => (.broken f, rest)
      else (.broken (.violated .valueExpected), rest)

def scanItems : Nat → List Char → Items × List Char
  | 0, text => (.stopped (.violated .valueExpected), text)
  | fuel + 1, text =>
    let (head, text) := scanValue fuel text
    match separator ']' .list .listGoesOn text with
    | (.comma, text) =>
      if startsWith ']' (skipBlank text) then
        (.more head (.more (.broken .closedBeforeValue) (.stopped .closedBeforeValue)), text)
      else
        let (rest, text) := scanItems fuel text; (.more head rest, text)
    | (.close, text) => (.more head .done, text)
    | (.stopped f, text) => (.more head (.stopped f), text)

def scanMembers : Nat → List Char → Members × List Char
  | 0, text => (.stopped (.violated .valueExpected), text)
  | fuel + 1, text => match skipBlank text with
    | [] => (.keyless .endedBeforeKey, [])
    | c :: rest =>
      if c = '"' then
        let (key, text) := scanQuoted rest
        let (value, text) := match skipBlank text with
          | [] => (.broken (.ended .object), [])
          | c :: rest =>
            if c = ':' then scanValue fuel rest else (.broken (.violated .colonExpected), rest)
        match separator '}' .object .objectGoesOn text with
        | (.comma, text) =>
          let (rest, text) := scanMembers fuel text; (.more key value rest, text)
        | (.close, text) => (.more key value .done, text)
        | (.stopped f, text) => (.more key value (.stopped f), text)
      else if c = '}' then (.keyless .closedBeforeKey, rest)
      else (.keyless (.violated .keyNotText), rest)
end

def Tree.ofText (text : List Char) : Tree × List Char := scanValue (2 * text.length + 2) text

end ContractBuild.Json
