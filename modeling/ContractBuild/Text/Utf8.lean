/-! UTF-8. Bytes are cut into chunks: characters, runs of bytes that start none, and a
character that the end of the text cuts off. An unreadable run is the longest start of a
character that could have been there, or one byte. -/

namespace ContractBuild

abbrev Bytes := List UInt8

namespace Utf8

def encodeChar (c : Char) : Bytes :=
  let n := c.toNat
  if n < 0x80 then [.ofNat n]
  else if n < 0x800 then [.ofNat (0xC0 + n / 64), .ofNat (0x80 + n % 64)]
  else if n < 0x10000 then
    [.ofNat (0xE0 + n / 4096), .ofNat (0x80 + n / 64 % 64), .ofNat (0x80 + n % 64)]
  else
    [.ofNat (0xF0 + n / 262144), .ofNat (0x80 + n / 4096 % 64), .ofNat (0x80 + n / 64 % 64),
     .ofNat (0x80 + n % 64)]

def encodeChars (s : List Char) : Bytes := s.flatMap encodeChar

def encode (s : String) : Bytes := encodeChars s.toList

inductive Chunk
  | char (c : Char)
  | invalid (length : Nat)
  | truncated (length : Nat)
  deriving DecidableEq, Repr

def Chunk.length : Chunk → Nat
  | .char c => c.utf8Size
  | .invalid n | .truncated n => n

/-- For the first byte of a longer character: its bits, how many bytes follow, and the least
and the greatest value of the next one. -/
def lead (b : Nat) : Option (Nat × Nat × Nat × Nat) :=
  if b < 0xC2 then none
  else if b < 0xE0 then some (b - 0xC0, 1, 0x80, 0xBF)
  else if b < 0xF0 then
    some (b - 0xE0, 2, if b = 0xE0 then 0xA0 else 0x80, if b = 0xED then 0x9F else 0xBF)
  else if b < 0xF5 then
    some (b - 0xF0, 3, if b = 0xF0 then 0x90 else 0x80, if b = 0xF4 then 0x8F else 0xBF)
  else none

def follow (bits taken : Nat) : Nat → Nat → Nat → Bytes → Chunk
  | 0, _, _, _ => .char (Char.ofNat bits)
  | _ + 1, _, _, [] => .truncated taken
  | owed + 1, low, high, b :: rest =>
    if b.toNat < low ∨ high < b.toNat then .invalid taken
    else follow (bits * 64 + (b.toNat - 0x80)) (taken + 1) owed 0x80 0xBF rest

def front (b : UInt8) (rest : Bytes) : Chunk :=
  if b.toNat < 0x80 then .char (Char.ofNat b.toNat)
  else match lead b.toNat with
    | none => .invalid 1
    | some (bits, owed, low, high) => follow bits 1 owed low high rest

def chunksFrom : Nat → Bytes → List Chunk
  | _, [] => []
  | skip + 1, _ :: rest => chunksFrom skip rest
  | 0, b :: rest => front b rest :: chunksFrom ((front b rest).length - 1) rest

def chunks (bytes : Bytes) : List Chunk := chunksFrom 0 bytes

inductive Fault
  | invalid (length index : Nat)
  | incomplete (index : Nat)
  deriving DecidableEq, Repr

def Fault.index : Fault → Nat
  | .invalid _ index | .incomplete index => index

def Fault.message : Fault → String
  | .invalid length index => s!"invalid utf-8 sequence of {length} bytes from index {index}"
  | .incomplete index => s!"incomplete utf-8 byte sequence from index {index}"

def readable (index : Nat) : List Chunk → Except Fault (List Char)
  | [] => .ok []
  | .char c :: rest => (readable (index + c.utf8Size) rest).map (c :: ·)
  | .invalid n :: _ => .error (.invalid n index)
  | .truncated _ :: _ => .error (.incomplete index)

def decode (bytes : Bytes) : Except Fault String :=
  (readable 0 (chunks bytes)).map String.ofList

def decodeLossy (bytes : Bytes) : String :=
  .ofList ((chunks bytes).map fun | .char c => c | _ => '\uFFFD')

end Utf8
end ContractBuild
