import ContractBuild.Text.Utf8

/-!
# Decoding what was encoded

The bytes of a character are read as this character, whatever bytes follow, so a text is read back
from its bytes.
-/

namespace ContractBuild.Utf8

theorem toNat_byte {n : Nat} (small : n < 256) : (UInt8.ofNat n).toNat = n := by
  rw [UInt8.toNat_ofNat']
  exact Nat.mod_eq_of_lt small

theorem follow_succ {bits taken owed low high byte : Nat} (lower : low ≤ byte) (upper : byte ≤ high)
    (small : byte < 256) (rest : Bytes) :
    follow bits taken (owed + 1) low high (.ofNat byte :: rest) =
      follow (bits * 64 + (byte - 0x80)) (taken + 1) owed 0x80 0xBF rest := by
  rw [follow, toNat_byte small, if_neg (by omega)]

theorem chunksFrom_eq (skip : Nat) (bytes : Bytes) :
    chunksFrom skip bytes = chunks (bytes.drop skip) := by
  induction bytes generalizing skip with
  | nil => cases skip <;> rfl
  | cons b bytes ih =>
    cases skip with
    | zero => rfl
    | succ skip => exact ih skip

theorem chunks_cons (b : UInt8) (more : Bytes) {rest : Bytes} {c : Char}
    (found : front b (more ++ rest) = .char c) (size : c.utf8Size = more.length + 1) :
    chunks (b :: more ++ rest) = .char c :: chunks rest := by
  rw [List.cons_append, chunks, chunksFrom, found, chunksFrom_eq, Chunk.length, size,
    Nat.add_sub_cancel, List.drop_left]

section

variable {n : Nat} (rest : Bytes)

theorem front_one (below : n < 0x80) : front (.ofNat n) rest = .char (Char.ofNat n) := by
  rw [front, toNat_byte (by omega), if_pos below]

theorem front_two (above : 0x80 ≤ n) (below : n < 0x800) :
    front (.ofNat (0xC0 + n / 64)) (.ofNat (0x80 + n % 64) :: rest) = .char (Char.ofNat n) := by
  have first : lead (0xC0 + n / 64) = some (n / 64, 1, 0x80, 0xBF) := by
    rw [lead, if_neg (by omega), if_pos (by omega), Nat.add_sub_cancel_left]
  have bits : n / 64 * 64 + (0x80 + n % 64 - 0x80) = n := by omega
  rw [front, toNat_byte (by omega), if_neg (by omega), first]
  dsimp only
  rw [follow_succ (by omega) (by omega) (by omega), bits, follow]

theorem front_three (above : 0x800 ≤ n) (below : n < 0x10000) (whole : n < 0xD800 ∨ 0xDFFF < n) :
    front (.ofNat (0xE0 + n / 4096))
      (.ofNat (0x80 + n / 64 % 64) :: .ofNat (0x80 + n % 64) :: rest) = .char (Char.ofNat n) := by
  have first : lead (0xE0 + n / 4096) = some (n / 4096, 2,
      if 0xE0 + n / 4096 = 0xE0 then 0xA0 else 0x80,
      if 0xE0 + n / 4096 = 0xED then 0x9F else 0xBF) := by
    rw [lead, if_neg (by omega), if_neg (by omega), if_pos (by omega), Nat.add_sub_cancel_left]
  have bits : (n / 4096 * 64 + (0x80 + n / 64 % 64 - 0x80)) * 64 + (0x80 + n % 64 - 0x80) = n := by
    omega
  rw [front, toNat_byte (by omega), if_neg (by omega), first]
  dsimp only
  rw [follow_succ (by split <;> omega) (by split <;> omega) (by omega),
    follow_succ (by omega) (by omega) (by omega), bits, follow]

theorem front_four (above : 0x10000 ≤ n) (below : n < 0x110000) :
    front (.ofNat (0xF0 + n / 262144)) (.ofNat (0x80 + n / 4096 % 64) ::
      .ofNat (0x80 + n / 64 % 64) :: .ofNat (0x80 + n % 64) :: rest) = .char (Char.ofNat n) := by
  have first : lead (0xF0 + n / 262144) = some (n / 262144, 3,
      if 0xF0 + n / 262144 = 0xF0 then 0x90 else 0x80,
      if 0xF0 + n / 262144 = 0xF4 then 0x8F else 0xBF) := by
    rw [lead, if_neg (by omega), if_neg (by omega), if_neg (by omega), if_pos (by omega),
      Nat.add_sub_cancel_left]
  have bits : ((n / 262144 * 64 + (0x80 + n / 4096 % 64 - 0x80)) * 64 +
      (0x80 + n / 64 % 64 - 0x80)) * 64 + (0x80 + n % 64 - 0x80) = n := by
    omega
  rw [front, toNat_byte (by omega), if_neg (by omega), first]
  dsimp only
  rw [follow_succ (by split <;> omega) (by split <;> omega) (by omega),
    follow_succ (by omega) (by omega) (by omega), follow_succ (by omega) (by omega) (by omega),
    bits, follow]

end

theorem utf8Size_eq (c : Char) : c.utf8Size =
    if c.toNat < 0x80 then 1 else if c.toNat < 0x800 then 2 else if c.toNat < 0x10000 then 3
    else 4 := by
  have compare (k : Nat) (h : k < UInt32.size) : c.val ≤ UInt32.ofNatLT k h ↔ c.toNat < k + 1 := by
    rw [UInt32.le_iff_toNat_le]
    exact Nat.lt_succ_iff.symm
  simp only [Char.utf8Size, compare]

theorem toNat_range (c : Char) : c.toNat < 0xD800 ∨ 0xDFFF < c.toNat ∧ c.toNat < 0x110000 :=
  c.valid

theorem chunks_encodeChar (c : Char) (rest : Bytes) :
    chunks (encodeChar c ++ rest) = .char c :: chunks rest := by
  have range := toNat_range c
  have size := utf8Size_eq c
  have back := Char.ofNat_toNat c
  unfold encodeChar
  dsimp only
  generalize c.toNat = n at range size back
  subst back
  split
  · rename_i one
    rw [if_pos one] at size
    exact chunks_cons _ [] (front_one rest one) size
  · rename_i one
    rw [if_neg one] at size
    split
    · rename_i two
      rw [if_pos two] at size
      exact chunks_cons _ [_] (front_two rest (by omega) two) size
    · rename_i two
      rw [if_neg two] at size
      split
      · rename_i three
        rw [if_pos three] at size
        exact chunks_cons _ [_, _] (front_three rest (by omega) three (by omega)) size
      · rename_i three
        rw [if_neg three] at size
        exact chunks_cons _ [_, _, _] (front_four rest (by omega) (by omega)) size

theorem chunks_encodeChars (s : List Char) : chunks (encodeChars s) = s.map .char := by
  induction s with
  | nil => rfl
  | cons c s ih =>
    rw [encodeChars, List.flatMap_cons, chunks_encodeChar, ← encodeChars, ih, List.map_cons]

theorem readable_chars (index : Nat) (s : List Char) : readable index (s.map .char) = .ok s := by
  induction s generalizing index with
  | nil => rfl
  | cons c s ih => rw [List.map_cons, readable, ih, Except.map]

@[simp] theorem decode_encode (s : String) : decode (encode s) = .ok s := by
  rw [decode, encode, chunks_encodeChars, readable_chars, Except.map, String.ofList_toList]

end ContractBuild.Utf8
