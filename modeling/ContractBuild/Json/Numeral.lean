import ContractBuild.Json.Basic
import ContractBuild.Number

/-! Where a JSON text can break off, and numbers as they are spelled with their values. -/

namespace ContractBuild.Json

inductive Part
  | value
  | list
  | object
  | string
  deriving DecidableEq, Repr

def Part.message : Part → String
  | value => "EOF while parsing a value"
  | list => "EOF while parsing a list"
  | object => "EOF while parsing an object"
  | string => "EOF while parsing a string"

inductive Violation
  | colonExpected
  | listGoesOn
  | objectGoesOn
  | identExpected
  | valueExpected
  | quoteExpected
  | badEscape
  | badNumber
  | outOfRange
  | badCodePoint
  | controlCharacter
  | keyNotText
  | keyNotNumber
  | loneSurrogate
  | trailingComma
  | trailingCharacters
  | endOfEscape
  | tooDeep
  deriving DecidableEq, Repr

def Violation.message : Violation → String
  | colonExpected => "expected `:`"
  | listGoesOn => "expected `,` or `]`"
  | objectGoesOn => "expected `,` or `\x7d`"
  | identExpected => "expected ident"
  | valueExpected => "expected value"
  | quoteExpected => "expected `\"`"
  | badEscape => "invalid escape"
  | badNumber => "invalid number"
  | outOfRange => "number out of range"
  | badCodePoint => "invalid unicode code point"
  | controlCharacter => "control character (\\u0000-\\u001F) found while parsing a string"
  | keyNotText => "key must be a string"
  | keyNotNumber => "invalid value: expected key to be a number in quotes"
  | loneSurrogate => "lone leading surrogate in hex escape"
  | trailingComma => "trailing comma"
  | trailingCharacters => "trailing characters"
  | endOfEscape => "unexpected end of hex escape"
  | tooDeep => "recursion limit exceeded"

/-- Why a text stops being JSON at some place. What is the same to all who come there stands as
`ended` or `violated`; the other faults are told differently by those who read a value, who skip
it, or who look for a name or the second half of a character. -/
inductive Fault
  | ended (part : Part)
  | endedInWord
  | endedInEscape
  | endedInNumber
  | endedBeforeKey
  | closedBeforeValue
  | closedBeforeKey
  | badUnit
  | violated (violation : Violation)
  deriving DecidableEq, Repr

structure Numeral where
  negative : Bool
  whole : List Char
  fraction : List Char
  exponent : Option Int
  deriving DecidableEq, Repr

namespace Numeral

def digitsOf (text : List Char) : List Char × List Char :=
  (text.takeWhile Char.isDigit, text.dropWhile Char.isDigit)

def someDigits (text : List Char) : Except Fault (List Char × List Char) :=
  match digitsOf text, text with
  | ([], _), [] => .error .endedInNumber
  | ([], _), _ :: _ => .error (.violated .badNumber)
  | found, _ => .ok found

def scanWhole (text : List Char) : Except Fault (List Char × List Char) :=
  match text with
  | '0' :: rest =>
    if (digitsOf rest).1.isEmpty then .ok (['0'], rest) else .error (.violated .badNumber)
  | _ => someDigits text

def scanFraction (text : List Char) : Except Fault (List Char × List Char) :=
  match text with
  | '.' :: rest => someDigits rest
  | _ => .ok ([], text)

def scanExponent (text : List Char) : Except Fault (Option Int × List Char) :=
  match text with
  | e :: rest =>
    if e = 'e' ∨ e = 'E' then
      match rest with
      | '-' :: rest => (someDigits rest).map fun (ds, rest) => (some (-Digits.number ds), rest)
      | '+' :: rest => (someDigits rest).map fun (ds, rest) => (some (Digits.number ds), rest)
      | _ => (someDigits rest).map fun (ds, rest) => (some (Digits.number ds), rest)
    else .ok (none, text)
  | [] => .ok (none, [])

def scanUnsigned (negative : Bool) (text : List Char) : Except Fault (Numeral × List Char) := do
  let (whole, text) ← scanWhole text
  let (fraction, text) ← scanFraction text
  let (exponent, text) ← scanExponent text
  return (⟨negative, whole, fraction, exponent⟩, text)

def scan : List Char → Except Fault (Numeral × List Char)
  | '-' :: text => scanUnsigned true text
  | text => scanUnsigned false text

/-- Appends digits to `n` while 64 bits hold the result; returns also the digits left over. -/
def absorb (n : Nat) : List Char → Nat × List Char
  | [] => (n, [])
  | c :: rest =>
    if Digits.push n c < UInt64.size then absorb (Digits.push n c) rest else (n, c :: rest)

def real (x : Numeral) (significand : Nat) (exponent : Int) : Option Number :=
  (Binary64.ofDecimal significand exponent).map fun r => .real { r with negative := x.negative }

/-- The value; none if it is out of range. Only the leading digits that 64 bits hold count, and
minus zero is a real. -/
def value (x : Numeral) : Option Number :=
  match absorb 0 x.whole, x.fraction, x.exponent with
  | (n, []), [], none =>
    if x.negative then if n = 0 ∨ 9223372036854775808 < n then x.real n 0 else Number.ofInt? (-n)
    else Number.ofInt? n
  | (n, left), fraction, exponent =>
    let (n, lost) := absorb n fraction
    x.real n (left.length - (fraction.length - lost.length) + exponent.getD 0)

end Numeral
end ContractBuild.Json
