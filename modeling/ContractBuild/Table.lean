/-! Tables kept as lists of entries in the order in which their keys first came. A key that is
put again keeps its place and takes the new value. -/

namespace ContractBuild.Table

variable {κ ν : Type} [DecidableEq κ]

def find? (k : κ) : List (κ × ν) → Option ν
  | [] => none
  | e :: rest => if e.1 = k then some e.2 else find? k rest

def put (k : κ) (x : ν) : List (κ × ν) → List (κ × ν)
  | [] => [(k, x)]
  | e :: rest => if e.1 = k then (k, x) :: rest else e :: put k x rest

def remove (k : κ) (entries : List (κ × ν)) : List (κ × ν) := entries.filter fun e => e.1 ≠ k

/-- Of entries with one key the later counts, at the place of the earlier. -/
def ofEntries (entries : List (κ × ν)) : List (κ × ν) :=
  entries.foldl (fun found e => put e.1 e.2 found) []

@[simp] theorem find?_put_self (k : κ) (x : ν) (entries : List (κ × ν)) :
    find? k (put k x entries) = some x := by
  induction entries with
  | nil => simp [put, find?]
  | cons e rest ih => by_cases h : e.1 = k <;> simp [put, find?, h, ih]

theorem find?_put_ne {k j : κ} (ne : j ≠ k) (x : ν) (entries : List (κ × ν)) :
    find? j (put k x entries) = find? j entries := by
  induction entries with
  | nil => simp [put, find?, ne.symm]
  | cons e rest ih =>
    by_cases h : e.1 = k
    · simp [put, find?, h, ne.symm]
    · simp [put, find?, h, ih]

@[simp] theorem find?_remove_self (k : κ) (entries : List (κ × ν)) :
    find? k (remove k entries) = none := by
  induction entries with
  | nil => rfl
  | cons e rest ih => by_cases h : e.1 = k <;> simp_all [remove, find?]

theorem find?_remove_ne {k j : κ} (ne : j ≠ k) (entries : List (κ × ν)) :
    find? j (remove k entries) = find? j entries := by
  induction entries with
  | nil => rfl
  | cons e rest ih =>
    by_cases h : e.1 = k
    · simp_all [remove, find?, ne.symm]
    · by_cases h' : e.1 = j <;> simp_all [remove, find?]

end ContractBuild.Table
