import ContractBuild.Number
import ContractBuild.Table

/-! JSON values. Members of an object stay in the order in which their keys first came, so a
value is printed as it was read. Whole numbers of 64 bits are exact and all others binary64. -/

namespace ContractBuild

inductive Json.Number
  | whole (n : Int) (least : -9223372036854775808 ≤ n) (below : n < 18446744073709551616)
  | real (x : Binary64)
  deriving DecidableEq, Repr

inductive Json
  | null
  | bool (b : Bool)
  | number (n : Json.Number)
  | string (s : String)
  | array (items : List Json)
  | object (members : List (String × Json))
  deriving Repr

namespace Json

instance : Inhabited Json := ⟨null⟩

mutual
def decEq : (a b : Json) → Decidable (a = b)
  | .null, .null => .isTrue rfl
  | .bool a, .bool b =>
    if h : a = b then .isTrue (h ▸ rfl) else .isFalse fun eq => h (Json.bool.inj eq)
  | .number a, .number b =>
    if h : a = b then .isTrue (h ▸ rfl) else .isFalse fun eq => h (Json.number.inj eq)
  | .string a, .string b =>
    if h : a = b then .isTrue (h ▸ rfl) else .isFalse fun eq => h (Json.string.inj eq)
  | .array a, .array b => match decEqItems a b with
    | .isTrue h => .isTrue (h ▸ rfl)
    | .isFalse h => .isFalse fun eq => h (Json.array.inj eq)
  | .object a, .object b => match decEqMembers a b with
    | .isTrue h => .isTrue (h ▸ rfl)
    | .isFalse h => .isFalse fun eq => h (Json.object.inj eq)
  | .null, .bool _ | .null, .number _ | .null, .string _ | .null, .array _ | .null, .object _
  | .bool _, .null | .bool _, .number _ | .bool _, .string _ | .bool _, .array _
  | .bool _, .object _
  | .number _, .null | .number _, .bool _ | .number _, .string _ | .number _, .array _
  | .number _, .object _
  | .string _, .null | .string _, .bool _ | .string _, .number _ | .string _, .array _
  | .string _, .object _
  | .array _, .null | .array _, .bool _ | .array _, .number _ | .array _, .string _
  | .array _, .object _
  | .object _, .null | .object _, .bool _ | .object _, .number _ | .object _, .string _
  | .object _, .array _ => .isFalse nofun

def decEqItems : (a b : List Json) → Decidable (a = b)
  | [], [] => .isTrue rfl
  | x :: a, y :: b => match decEq x y, decEqItems a b with
    | .isTrue hx, .isTrue h => .isTrue (hx ▸ h ▸ rfl)
    | .isFalse hx, _ => .isFalse fun eq => hx (List.cons.inj eq).1
    | _, .isFalse h => .isFalse fun eq => h (List.cons.inj eq).2
  | [], _ :: _ | _ :: _, [] => .isFalse nofun

def decEqMembers : (a b : List (String × Json)) → Decidable (a = b)
  | [], [] => .isTrue rfl
  | (k, x) :: a, (j, y) :: b => match decEq x y, decEqMembers a b with
    | .isTrue hx, .isTrue h =>
      if hk : k = j then .isTrue (hk ▸ hx ▸ h ▸ rfl)
      else .isFalse fun eq => hk (Prod.mk.inj (List.cons.inj eq).1).1
    | .isFalse hx, _ => .isFalse fun eq => hx (Prod.mk.inj (List.cons.inj eq).1).2
    | _, .isFalse h => .isFalse fun eq => h (List.cons.inj eq).2
  | [], _ :: _ | _ :: _, [] => .isFalse nofun
end

instance : DecidableEq Json := decEq

def Number.ofInt? (n : Int) : Option Number :=
  if h : -9223372036854775808 ≤ n ∧ n < 18446744073709551616 then some (.whole n h.1 h.2)
  else none

def Number.ofUInt64 (n : UInt64) : Number :=
  .whole n.toNat (by omega) (by have := n.toNat_lt; omega)

def Number.ofUInt32 (n : UInt32) : Number :=
  .whole n.toNat (by omega) (by have := n.toNat_lt; omega)

def Number.ofInt32 (n : Int32) : Number :=
  .whole n.toInt (by have := n.le_toInt; omega) (by have := n.toInt_lt; omega)

def ofUInt64 (n : UInt64) : Json := .number (.ofUInt64 n)

def ofUInt32 (n : UInt32) : Json := .number (.ofUInt32 n)

def ofInt32 (n : Int32) : Json := .number (.ofInt32 n)

def ofStrings (items : List String) : Json := .array (items.map .string)

/-- Of two members with one key the later counts, at the place of the earlier. -/
def ofMembers (members : List (String × Json)) : Json := .object (Table.ofEntries members)

def get? (key : String) : Json → Option Json
  | .object members => Table.find? key members
  | _ => none

def items? : Json → Option (List Json)
  | .array items => some items
  | _ => none

def members? : Json → Option (List (String × Json))
  | .object members => some members
  | _ => none

def string? : Json → Option String
  | .string s => some s
  | _ => none

def text? (key : String) (x : Json) : Option String := x.get? key >>= string?

end Json
end ContractBuild
