import ContractBuild.Json.Basic
import ContractBuild.Number
import ContractBuild.SortedMap

/-! The text of a JSON value, with no blanks and with members in their order; and the values that
records and maps are written as. -/

namespace ContractBuild.Json

/-- Reals are written by position up to 16 digits and down to five places; an exponent always
carries its sign. -/
def realStyle : Shortest.Style := ⟨-4, 16, ['.', '0'], ['e', '+'], ['e', '-']⟩

def hexDigit (n : Nat) : Char := Nat.digitChar n

def escape (c : Char) : List Char :=
  if c = '"' then ['\\', '"']
  else if c = '\\' then ['\\', '\\']
  else if c = '\n' then ['\\', 'n']
  else if c = '\r' then ['\\', 'r']
  else if c = '\t' then ['\\', 't']
  else if c = '\x08' then ['\\', 'b']
  else if c = '\x0C' then ['\\', 'f']
  else if c.toNat < 0x20 then
    ['\\', 'u', '0', '0', hexDigit (c.toNat / 16), hexDigit (c.toNat % 16)]
  else [c]

def quote (s : String) : List Char := '"' :: s.toList.flatMap escape ++ ['"']

def Number.chars : Number → List Char
  | .whole n _ _ => if n < 0 then '-' :: Digits.digits n.natAbs else Digits.digits n.natAbs
  | .real x => Shortest.write realStyle x

mutual
def chars : Json → List Char
  | .null => ['n', 'u', 'l', 'l']
  | .bool true => ['t', 'r', 'u', 'e']
  | .bool false => ['f', 'a', 'l', 's', 'e']
  | .number n => n.chars
  | .string s => quote s
  | .array [] => ['[', ']']
  | .array (x :: rest) => '[' :: (chars x ++ itemChars rest)
  | .object [] => ['{', '}']
  | .object ((key, x) :: rest) => '{' :: (quote key ++ ':' :: (chars x ++ memberChars rest))

def itemChars : List Json → List Char
  | [] => [']']
  | x :: rest => ',' :: (chars x ++ itemChars rest)

def memberChars : List (String × Json) → List Char
  | [] => ['}']
  | (key, x) :: rest => ',' :: (quote key ++ ':' :: (chars x ++ memberChars rest))
end

def text (x : Json) : String := .ofList x.chars

def record (fields : List (String × Option Json)) : Json :=
  .object (fields.filterMap fun f => f.2.map (f.1, ·))

variable {α : Type}

def ofMap (write : α → Json) (m : SortedMap String α) : Json :=
  .object (m.entries.map fun e => (e.1, write e.2))

def ofUInt32Map (write : α → Json) (m : SortedMap UInt32 α) : Json :=
  .object (m.entries.map fun e => (Digits.text e.1.toNat, write e.2))

def ofList (write : α → Json) (items : List α) : Json := .array (items.map write)

def ofOption (write : α → Json) : Option α → Json
  | some x => write x
  | none => .null

def unlessEmpty (write : α → Json) (items : List α) : Option Json :=
  if items.isEmpty then none else some (ofList write items)

end ContractBuild.Json
