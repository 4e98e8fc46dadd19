/-! Maps kept as lists of entries in strictly increasing key order. Inserting at a key that is
present replaces its value. Two maps that look up the same are equal, so maps can be compared
by what they hold. -/

namespace ContractBuild
open Std

variable {κ ν ω : Type} [Ord κ]

namespace SortedMap

def Increasing (entries : List (κ × ν)) : Prop :=
  entries.Pairwise fun a b => compare a.1 b.1 = .lt

def lookup (k : κ) : List (κ × ν) → Option ν
  | [] => none
  | e :: rest => if compare k e.1 = .eq then some e.2 else lookup k rest

def place (k : κ) (x : ν) : List (κ × ν) → List (κ × ν)
  | [] => [(k, x)]
  | e :: rest => match compare k e.1 with
    | .lt => (k, x) :: e :: rest
    | .eq => (k, x) :: rest
    | .gt => e :: place k x rest

def discard (k : κ) (entries : List (κ × ν)) : List (κ × ν) :=
  entries.filter fun e => compare k e.1 != .eq

theorem mem_place {k : κ} {x : ν} {e : κ × ν} {entries : List (κ × ν)}
    (h : e ∈ place k x entries) : e = (k, x) ∨ e ∈ entries := by
  induction entries with
  | nil => simp_all [place]
  | cons head rest ih =>
    simp only [place] at h
    split at h
    · simpa using h
    · rcases List.mem_cons.1 h with h | h
      · exact .inl h
      · exact .inr (List.mem_cons_of_mem _ h)
    · rcases List.mem_cons.1 h with h | h
      · exact .inr (h ▸ List.mem_cons_self)
      · exact (ih h).imp id (List.mem_cons_of_mem _)

theorem increasing_place [TransOrd κ] [LawfulEqOrd κ] (k : κ) (x : ν) {entries : List (κ × ν)}
    (h : Increasing entries) : Increasing (place k x entries) := by
  induction entries with
  | nil => simp [place, Increasing]
  | cons head rest ih =>
    obtain ⟨below, tail⟩ := List.pairwise_cons.1 h
    simp only [place]
    split
    · rename_i lt
      refine List.pairwise_cons.2 ⟨fun e he => ?_, h⟩
      rcases List.mem_cons.1 he with rfl | he
      · exact lt
      · exact TransCmp.lt_trans lt (below e he)
    · rename_i eq
      obtain rfl := compare_eq_iff_eq.1 eq
      exact List.pairwise_cons.2 ⟨below, tail⟩
    · rename_i gt
      refine List.pairwise_cons.2 ⟨fun e he => ?_, ih tail⟩
      rcases mem_place he with rfl | he
      · exact OrientedCmp.gt_iff_lt.1 gt
      · exact below e he

theorem increasing_discard (k : κ) {entries : List (κ × ν)} (h : Increasing entries) :
    Increasing (discard k entries) :=
  h.sublist List.filter_sublist

theorem increasing_map (f : κ → ν → ω) {entries : List (κ × ν)} (h : Increasing entries) :
    Increasing (entries.map fun e => (e.1, f e.1 e.2)) :=
  h.map _ fun _ _ lt => lt

theorem lookup_place_self [TransOrd κ] [LawfulEqOrd κ] (k : κ) (x : ν) (entries : List (κ × ν)) :
    lookup k (place k x entries) = some x := by
  induction entries with
  | nil => simp [place, lookup, compare_self]
  | cons head rest ih =>
    simp only [place]
    split <;> simp_all [lookup, compare_self]

theorem lookup_place_ne [LawfulEqOrd κ] {k j : κ} (ne : j ≠ k) (x : ν)
    (entries : List (κ × ν)) : lookup j (place k x entries) = lookup j entries := by
  have apart : compare j k ≠ .eq := fun eq => ne (compare_eq_iff_eq.1 eq)
  induction entries with
  | nil => simp [place, lookup, apart]
  | cons head rest ih =>
    simp only [place]
    split
    · simp [lookup, apart]
    · rename_i eq
      obtain rfl := compare_eq_iff_eq.1 eq
      simp [lookup, apart]
    · simp [lookup, ih]

theorem lookup_eq_some_iff [TransOrd κ] [LawfulEqOrd κ] {k : κ} {x : ν} {entries : List (κ × ν)}
    (h : Increasing entries) : lookup k entries = some x ↔ (k, x) ∈ entries := by
  induction entries with
  | nil => simp [lookup]
  | cons head rest ih =>
    obtain ⟨below, tail⟩ := List.pairwise_cons.1 h
    simp only [lookup]
    by_cases eq : compare k head.1 = .eq
    · obtain rfl := compare_eq_iff_eq.1 eq
      rw [if_pos eq]
      constructor
      · rintro ⟨⟩
        exact List.mem_cons_self
      · intro mem
        rcases List.mem_cons.1 mem with eq | mem
        · rw [← eq]
        · exact absurd (below _ mem) (by simp [compare_self])
    · rw [if_neg eq, ih tail, List.mem_cons]
      refine ⟨.inr, fun mem => mem.resolve_left ?_⟩
      rintro rfl
      exact eq compare_self

theorem entries_ext [TransOrd κ] [LawfulEqOrd κ] {left right : List (κ × ν)}
    (hl : Increasing left) (hr : Increasing right)
    (h : ∀ k, lookup k left = lookup k right) : left = right := by
  have mem (e : κ × ν) : e ∈ left ↔ e ∈ right := by
    rw [← lookup_eq_some_iff hl, ← lookup_eq_some_iff hr, h]
  induction left generalizing right with
  | nil =>
    cases right with
    | nil => rfl
    | cons head rest => exact absurd ((mem head).2 List.mem_cons_self) (by simp)
  | cons a left ih =>
    cases right with
    | nil => exact absurd ((mem a).1 List.mem_cons_self) (by simp)
    | cons b right =>
      obtain ⟨aBelow, aTail⟩ := List.pairwise_cons.1 hl
      obtain ⟨bBelow, bTail⟩ := List.pairwise_cons.1 hr
      have irreflexive (k : κ) : compare k k ≠ .lt := by simp [compare_self]
      have eq : a = b := by
        rcases List.mem_cons.1 ((mem a).1 List.mem_cons_self) with eq | inRight
        · exact eq
        rcases List.mem_cons.1 ((mem b).2 List.mem_cons_self) with eq | inLeft
        · exact eq.symm
        exact absurd (TransCmp.lt_trans (aBelow b inLeft) (bBelow a inRight)) (irreflexive _)
      subst eq
      have rest (e : κ × ν) : e ∈ left ↔ e ∈ right := by
        have := mem e
        simp only [List.mem_cons] at this
        constructor
        · intro inLeft
          rcases this.1 (.inr inLeft) with rfl | inRight
          · exact absurd (aBelow _ inLeft) (irreflexive _)
          · exact inRight
        · intro inRight
          rcases this.2 (.inr inRight) with rfl | inLeft
          · exact absurd (bBelow _ inRight) (irreflexive _)
          · exact inLeft
      rw [ih aTail bTail (fun k => ?_) rest]
      ext x
      simp only [lookup_eq_some_iff aTail, lookup_eq_some_iff bTail, rest]

end SortedMap

structure SortedMap (κ ν : Type) [Ord κ] where
  entries : List (κ × ν)
  increasing : SortedMap.Increasing entries

namespace SortedMap

instance [DecidableEq κ] [DecidableEq ν] : DecidableEq (SortedMap κ ν) := fun a b =>
  decidable_of_iff (a.entries = b.entries) ⟨fun h => by cases a; cases b; simp_all, fun h => h ▸ rfl⟩

def empty : SortedMap κ ν := ⟨[], .nil⟩

instance : EmptyCollection (SortedMap κ ν) := ⟨empty⟩
instance : Inhabited (SortedMap κ ν) := ⟨empty⟩

def find? (m : SortedMap κ ν) (k : κ) : Option ν := lookup k m.entries

@[simp] theorem find?_empty (k : κ) : (empty : SortedMap κ ν).find? k = none := rfl

def contains (m : SortedMap κ ν) (k : κ) : Bool := (m.find? k).isSome

def keys (m : SortedMap κ ν) : List κ := m.entries.map (·.1)

def values (m : SortedMap κ ν) : List ν := m.entries.map (·.2)

def size (m : SortedMap κ ν) : Nat := m.entries.length

def isEmpty (m : SortedMap κ ν) : Bool := m.entries.isEmpty

def map (f : κ → ν → ω) (m : SortedMap κ ν) : SortedMap κ ω :=
  ⟨m.entries.map fun e => (e.1, f e.1 e.2), increasing_map f m.increasing⟩

def erase (m : SortedMap κ ν) (k : κ) : SortedMap κ ν :=
  ⟨discard k m.entries, increasing_discard k m.increasing⟩

variable [TransOrd κ] [LawfulEqOrd κ]

def insert (m : SortedMap κ ν) (k : κ) (x : ν) : SortedMap κ ν :=
  ⟨place k x m.entries, increasing_place k x m.increasing⟩

/-- Of two entries with one key the later counts. -/
def ofList (entries : List (κ × ν)) : SortedMap κ ν :=
  entries.foldl (fun m e => m.insert e.1 e.2) empty

def singleton (k : κ) (x : ν) : SortedMap κ ν := empty.insert k x

@[simp] theorem find?_insert_self (m : SortedMap κ ν) (k : κ) (x : ν) :
    (m.insert k x).find? k = some x :=
  lookup_place_self k x m.entries

theorem find?_insert_ne (m : SortedMap κ ν) {k j : κ} (ne : j ≠ k) (x : ν) :
    (m.insert k x).find? j = m.find? j :=
  lookup_place_ne ne x m.entries

theorem find?_eq_some_iff (m : SortedMap κ ν) {k : κ} {x : ν} :
    m.find? k = some x ↔ (k, x) ∈ m.entries :=
  lookup_eq_some_iff m.increasing

theorem ext_find? {m n : SortedMap κ ν} (h : ∀ k, m.find? k = n.find? k) : m = n := by
  have := entries_ext m.increasing n.increasing h
  cases m
  cases n
  simp_all

end SortedMap
end ContractBuild
