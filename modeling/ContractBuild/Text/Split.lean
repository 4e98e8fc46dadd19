/-! Cutting texts at a character and at a byte offset. -/

namespace ContractBuild.Text

def splitOnce (mark : Char) : List Char → Option (List Char × List Char)
  | [] => none
  | c :: rest =>
    if c = mark then some ([], rest)
    else (splitOnce mark rest).map fun (before, after) => (c :: before, after)

theorem splitOnce_eq_some_iff {mark : Char} {s before after : List Char} :
    splitOnce mark s = some (before, after) ↔ s = before ++ mark :: after ∧ mark ∉ before := by
  induction s generalizing before with
  | nil => simp [splitOnce]
  | cons c rest ih =>
    by_cases h : c = mark
    · subst h
      cases before with
      | nil => simp [splitOnce, eq_comm]
      | cons d before => simp only [splitOnce, if_true, Option.some.injEq, Prod.mk.injEq]; grind
    · simp only [splitOnce, h, if_false, Option.map_eq_some_iff]
      constructor
      · rintro ⟨⟨b, a⟩, found, eq⟩
        obtain ⟨rfl, rfl⟩ := Prod.mk.inj eq
        obtain ⟨rfl, free⟩ := ih.1 found
        exact ⟨rfl, by simp [free, Ne.symm h]⟩
      · rintro ⟨eq, free⟩
        cases before with
        | nil => exact absurd (List.cons.inj eq).1 h
        | cons d b =>
          obtain ⟨rfl, tail⟩ := List.cons.inj eq
          exact ⟨(b, after), ih.2 ⟨tail, fun mem => free (List.mem_cons_of_mem _ mem)⟩, rfl⟩

theorem splitOnce_eq_none_iff {mark : Char} {s : List Char} :
    splitOnce mark s = none ↔ mark ∉ s := by
  induction s with
  | nil => simp [splitOnce]
  | cons c rest ih =>
    by_cases h : c = mark
    · simp [splitOnce, h]
    · simp [splitOnce, h, ih, Ne.symm h]

def split (mark : Char) : List Char → List (List Char)
  | [] => [[]]
  | c :: rest =>
    if c = mark then [] :: split mark rest
    else match split mark rest with
      | part :: parts => (c :: part) :: parts
      | [] => [[c]]

def utf8Length : List Char → Nat
  | [] => 0
  | c :: rest => c.utf8Size + utf8Length rest

/-- The parts before and after byte `n`, if that is the border of a character. -/
def splitBytes : Nat → List Char → Option (List Char × List Char)
  | 0, s => some ([], s)
  | _ + 1, [] => none
  | n + 1, c :: rest =>
    if c.utf8Size ≤ n + 1 then
      (splitBytes (n + 1 - c.utf8Size) rest).map fun (before, after) => (c :: before, after)
    else none

def after? (start s : List Char) : Option (List Char) := match start, s with
  | [], s => some s
  | _ :: _, [] => none
  | a :: start, c :: s => if a = c then after? start s else none

theorem after?_eq_some_iff {start s rest : List Char} :
    after? start s = some rest ↔ s = start ++ rest := by
  induction start generalizing s with
  | nil => simp [after?, eq_comm]
  | cons a start ih =>
    cases s with
    | nil => simp [after?]
    | cons c s => by_cases h : a = c <;> simp [after?, h, ih, eq_comm]

def contains (part : List Char) : List Char → Bool
  | [] => part.isEmpty
  | c :: rest => (after? part (c :: rest)).isSome || contains part rest

def inQuotes (s : String) : String := "\"" ++ s ++ "\""

def inTicks (s : String) : String := "`" ++ s ++ "`"

end ContractBuild.Text
