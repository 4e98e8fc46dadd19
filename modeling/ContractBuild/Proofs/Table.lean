import ContractBuild.Table
import Mathlib.Data.List.Induction
import Mathlib.Data.List.Nodup

/-!
# Tables without repeated keys

A table has each key once, whatever entries it is made from; entries whose keys differ are a table
as they are.
-/

namespace ContractBuild.Table

variable {κ ν : Type} [DecidableEq κ] {k : κ} {entries : List (κ × ν)}

def Distinct (entries : List (κ × ν)) : Prop := (entries.map Prod.fst).Nodup

theorem mem_keys_put {j : κ} (x : ν) :
    j ∈ (put k x entries).map Prod.fst ↔ j = k ∨ j ∈ entries.map Prod.fst := by
  induction entries with
  | nil => simp [put]
  | cons e rest ih =>
    by_cases same : e.1 = k
    · simp [put, same]
    · simp only [put, same, if_false, List.map_cons, List.mem_cons, ih]
      tauto

theorem Distinct.put (distinct : Distinct entries) (x : ν) : Distinct (put k x entries) := by
  induction entries with
  | nil => simp [Distinct, Table.put]
  | cons e rest ih =>
    obtain ⟨fresh, rest⟩ := List.nodup_cons.1 distinct
    by_cases same : e.1 = k
    · subst same
      rw [Table.put, if_pos rfl]
      exact distinct
    · rw [Table.put, if_neg same]
      refine List.nodup_cons.2 ⟨?_, ih rest⟩
      rw [mem_keys_put]
      rintro (eq | mem)
      · exact same eq
      · exact fresh mem

theorem distinct_ofEntries (entries : List (κ × ν)) : Distinct (ofEntries entries) := by
  have all : ∀ found : List (κ × ν), Distinct found →
      Distinct (entries.foldl (fun found e => put e.1 e.2 found) found) := by
    induction entries with
    | nil => exact fun _ distinct => distinct
    | cons e entries ih => exact fun found distinct => ih _ (distinct.put e.2)
  exact all [] List.nodup_nil

theorem put_of_fresh (fresh : k ∉ entries.map Prod.fst) (x : ν) :
    put k x entries = entries ++ [(k, x)] := by
  induction entries with
  | nil => rfl
  | cons e rest ih =>
    rw [List.map_cons, List.mem_cons, not_or] at fresh
    rw [put, if_neg (Ne.symm fresh.1), ih fresh.2, List.cons_append]

theorem ofEntries_of_distinct (distinct : Distinct entries) : ofEntries entries = entries := by
  have all : ∀ found : List (κ × ν), Distinct (found ++ entries) →
      entries.foldl (fun found e => put e.1 e.2 found) found = found ++ entries := by
    induction entries with
    | nil => exact fun found _ => (List.append_nil found).symm
    | cons e entries ih =>
      intro found apart
      have fresh : e.1 ∉ found.map Prod.fst := by
        intro mem
        rw [Distinct, List.map_append, List.map_cons, List.nodup_append] at apart
        exact apart.2.2 _ mem _ List.mem_cons_self rfl
      have same : found ++ e :: entries = found ++ [e] ++ entries := by simp
      rw [same] at apart
      rw [List.foldl_cons, put_of_fresh fresh, same]
      exact ih (List.nodup_cons.1 distinct).2 _ apart
  exact all [] distinct

theorem mem_of_mem_put {e : κ × ν} {x : ν} (mem : e ∈ put k x entries) :
    e = (k, x) ∨ e ∈ entries := by
  induction entries with
  | nil => exact .inl (List.mem_singleton.1 mem)
  | cons head rest ih =>
    rw [put] at mem
    split at mem
    · rcases List.mem_cons.1 mem with eq | mem
      · exact .inl eq
      · exact .inr (List.mem_cons_of_mem _ mem)
    · rcases List.mem_cons.1 mem with eq | mem
      · exact .inr (eq ▸ List.mem_cons_self)
      · exact (ih mem).imp_right (List.mem_cons_of_mem _)

theorem mem_of_mem_ofEntries {e : κ × ν} (mem : e ∈ ofEntries entries) : e ∈ entries := by
  have all : ∀ found : List (κ × ν),
      e ∈ entries.foldl (fun found e => put e.1 e.2 found) found → e ∈ found ∨ e ∈ entries := by
    clear mem
    induction entries with
    | nil => exact fun _ mem => .inl mem
    | cons head entries ih =>
      intro found mem
      rcases ih _ mem with mem | mem
      · rcases mem_of_mem_put mem with eq | mem
        · exact .inr (eq ▸ List.mem_cons_self)
        · exact .inl mem
      · exact .inr (List.mem_cons_of_mem _ mem)
  exact (all [] mem).resolve_left List.not_mem_nil

theorem ofEntries_concat (entries : List (κ × ν)) (e : κ × ν) :
    ofEntries (entries ++ [e]) = put e.1 e.2 (ofEntries entries) := by
  simp only [ofEntries, List.foldl_append, List.foldl_cons, List.foldl_nil]

theorem find?_ofEntries (k : κ) (entries : List (κ × ν)) :
    find? k (ofEntries entries) = (entries.filter (·.1 = k)).getLast?.map Prod.snd := by
  induction entries using List.reverseRecOn with
  | nil => rfl
  | append_singleton entries e ih =>
    rw [ofEntries_concat, List.filter_append]
    by_cases same : e.1 = k
    · subst same
      simp
    · rw [find?_put_ne (Ne.symm same), ih]
      simp [same]

theorem filter_of_distinct (distinct : Distinct entries) (k : κ) :
    (entries.filter (·.1 = k)).map Prod.snd = (find? k entries).toList := by
  induction entries with
  | nil => rfl
  | cons e rest ih =>
    obtain ⟨fresh, distinct⟩ := List.nodup_cons.1 distinct
    by_cases same : e.1 = k
    · subst same
      have none : rest.filter (·.1 = e.1) = [] := by
        rw [List.filter_eq_nil_iff]
        intro e' mem
        rw [decide_eq_true_eq]
        exact fun eq => fresh (eq ▸ List.mem_map_of_mem mem)
      rw [List.filter_cons_of_pos (by simp), none, find?, if_pos rfl]
      rfl
    · rw [List.filter_cons_of_neg (by simpa using same), find?, if_neg same, ih distinct]

theorem mem_of_find? {x : ν} (found : find? k entries = some x) : (k, x) ∈ entries := by
  induction entries with
  | nil => cases found
  | cons e rest ih =>
    rw [find?] at found
    split at found
    · obtain rfl := Option.some.inj found
      subst ‹e.1 = k›
      exact .head _
    · exact .tail _ (ih found)

theorem find?_of_mem (distinct : Distinct entries) {x : ν} (mem : (k, x) ∈ entries) :
    find? k entries = some x := by
  induction entries with
  | nil => cases mem
  | cons e rest ih =>
    obtain ⟨fresh, distinct⟩ := List.nodup_cons.1 distinct
    rw [find?]
    rcases List.mem_cons.1 mem with rfl | mem
    · exact if_pos rfl
    · rw [if_neg fun same => fresh (List.mem_map.2 ⟨(k, x), mem, same.symm⟩)]
      exact ih distinct mem

def mapValues (f : κ → ν → ν) (entries : List (κ × ν)) : List (κ × ν) :=
  entries.map fun e => (e.1, f e.1 e.2)

omit [DecidableEq κ] in
theorem fst_mapValues (f : κ → ν → ν) : (mapValues f entries).map Prod.fst =
    entries.map Prod.fst := by
  rw [mapValues, List.map_map]
  rfl

omit [DecidableEq κ] in
theorem Distinct.mapValues (distinct : Distinct entries) (f : κ → ν → ν) :
    Distinct (mapValues f entries) := by
  rw [Distinct, fst_mapValues]
  exact distinct

omit [DecidableEq κ] in
theorem mapValues_id (entries : List (κ × ν)) : mapValues (fun _ => id) entries = entries :=
  List.map_id entries

theorem find?_mapValues (f : κ → ν → ν) : find? k (mapValues f entries) =
    (find? k entries).map (f k) := by
  induction entries with
  | nil => rfl
  | cons e rest ih =>
    rw [mapValues, List.map_cons, find?, find?]
    by_cases same : e.1 = k
    · rw [if_pos same, if_pos same, same]
      rfl
    · rw [if_neg same, if_neg same]
      exact ih

theorem find?_cons_eq_none_iff {e : κ × ν} :
    find? k (e :: entries) = none ↔ e.1 ≠ k ∧ find? k entries = none := by
  rw [find?]
  split <;> simp_all

section

variable {first : List (κ × ν)}

theorem find?_append (absent : find? k first = none) :
    find? k (first ++ entries) = find? k entries := by
  induction first with
  | nil => rfl
  | cons e first ih =>
    obtain ⟨other, absent⟩ := find?_cons_eq_none_iff.1 absent
    rw [List.cons_append, find?, if_neg other, ih absent]

end

end ContractBuild.Table
