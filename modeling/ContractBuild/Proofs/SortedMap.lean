import ContractBuild.SortedMap
import Mathlib.Data.List.Induction

/-!
# Maps made from lists of entries

Of entries with one key the last counts. When the list is ordered, the last entry with a key is the
greatest one, so the map can be described without speaking of positions in the list.
-/

namespace ContractBuild.SortedMap
open Std

variable {κ ν α : Type} [Ord κ] [TransOrd κ] [LawfulEqOrd κ]

theorem find?_erase_self (m : SortedMap κ ν) (k : κ) : (m.erase k).find? k = none := by
  cases found : (m.erase k).find? k with
  | none => rfl
  | some x =>
    obtain ⟨-, other⟩ := List.mem_filter.1 ((find?_eq_some_iff _).1 found)
    simp [compare_self] at other

theorem find?_erase_ne (m : SortedMap κ ν) {k j : κ} (ne : j ≠ k) :
    (m.erase k).find? j = m.find? j := by
  have apart : compare k j ≠ .eq := fun eq => ne (compare_eq_iff_eq.1 eq).symm
  ext x
  simp [find?_eq_some_iff, erase, discard, apart]

theorem eq_empty_iff {m : SortedMap κ ν} : m = empty ↔ ∀ k, m.contains k = false := by
  refine ⟨fun eq k => eq ▸ rfl, fun none => ext_find? fun k => ?_⟩
  rw [find?_empty, ← Option.not_isSome_iff_eq_none, Bool.not_eq_true]
  exact none k

theorem isEmpty_iff {m : SortedMap κ ν} : m.isEmpty = true ↔ ∀ k, m.contains k = false := by
  rw [← eq_empty_iff, isEmpty, List.isEmpty_iff]
  constructor
  · intro nil
    cases m
    cases nil
    rfl
  · intro eq
    rw [eq]
    rfl

theorem ofList_concat (entries : List (κ × ν)) (e : κ × ν) :
    ofList (entries ++ [e]) = (ofList entries).insert e.1 e.2 := by
  simp only [ofList, List.foldl_append, List.foldl_cons, List.foldl_nil]

theorem find?_ofList_eq_some_iff {k : κ} {x : ν} {entries : List (κ × ν)} :
    (ofList entries).find? k = some x ↔
      ∃ before after, entries = before ++ (k, x) :: after ∧ ∀ e ∈ after, e.1 ≠ k := by
  induction entries using List.reverseRecOn with
  | nil => simp [ofList]
  | append_singleton entries e ih =>
    rw [ofList_concat]
    by_cases last : e.1 = k
    · subst last
      rw [find?_insert_self, Option.some.injEq]
      constructor
      · rintro rfl
        exact ⟨entries, [], rfl, nofun⟩
      · intro ⟨before, after, eq, other⟩
        rcases List.eq_nil_or_concat after with rfl | ⟨after, e', rfl⟩
        · exact congrArg Prod.snd (List.append_singleton_inj.1 eq).2
        · rw [List.concat_eq_append, ← List.cons_append, ← List.append_assoc] at eq
          rw [(List.append_singleton_inj.1 eq).2] at other
          exact absurd rfl (other e' (by simp))
    · rw [find?_insert_ne _ (Ne.symm last), ih]
      constructor
      · intro ⟨before, after, eq, other⟩
        refine ⟨before, after ++ [e], by rw [eq, List.append_assoc, List.cons_append], ?_⟩
        intro e' mem
        rcases List.mem_append.1 mem with mem | mem
        · exact other e' mem
        · exact List.mem_singleton.1 mem ▸ last
      · intro ⟨before, after, eq, other⟩
        rcases List.eq_nil_or_concat after with rfl | ⟨after, e', rfl⟩
        · exact absurd (congrArg Prod.fst (List.append_singleton_inj.1 eq).2) last
        · rw [List.concat_eq_append, ← List.cons_append, ← List.append_assoc] at eq
          refine ⟨before, after, (List.append_singleton_inj.1 eq).1, fun d mem => other d ?_⟩
          rw [List.concat_eq_append]
          exact List.mem_append_left _ mem

theorem mem_of_mem_ofList {e : κ × ν} {entries : List (κ × ν)}
    (mem : e ∈ (ofList entries).entries) : e ∈ entries := by
  have found := (find?_eq_some_iff _).2 mem
  obtain ⟨before, after, eq, -⟩ := find?_ofList_eq_some_iff.1 found
  rw [eq]
  exact List.mem_append_right _ List.mem_cons_self

theorem contains_ofList_iff {k : κ} {entries : List (κ × ν)} :
    (ofList entries).contains k = true ↔ k ∈ entries.map Prod.fst := by
  induction entries using List.reverseRecOn with
  | nil => simp [ofList, contains]
  | append_singleton entries e ih =>
    rw [ofList_concat, List.map_append, List.mem_append, ← ih]
    by_cases last : k = e.1
    · subst last
      simp [contains]
    · simp [contains, find?_insert_ne _ last, last]

theorem find?_ofList_map {f : κ × ν → κ × ν} {k : κ} {entries : List (κ × ν)}
    (fixed : ∀ e, e.1 = k ∨ (f e).1 = k → f e = e) :
    (ofList (entries.map f)).find? k = (ofList entries).find? k := by
  induction entries using List.reverseRecOn with
  | nil => rfl
  | append_singleton entries e ih =>
    rw [List.map_append, List.map_singleton, ofList_concat, ofList_concat]
    by_cases here : e.1 = k
    · rw [fixed e (.inl here), ← here, find?_insert_self, find?_insert_self]
    · have away : (f e).1 ≠ k := by
        intro came
        rw [fixed e (.inr came)] at came
        exact here came
      rw [find?_insert_ne _ (Ne.symm away), find?_insert_ne _ (Ne.symm here), ih]

theorem find?_ofList_map_eq_some_iff {less : α → α → Prop} {items : List α}
    (ordered : items.Pairwise less) (asymm : ∀ a b, less a b → ¬ less b a) (key : α → κ)
    (value : α → ν) {k : κ} {x : ν} :
    (ofList (items.map fun a => (key a, value a))).find? k = some x ↔
      ∃ a ∈ items, key a = k ∧ value a = x ∧ ∀ b ∈ items, key b = k → b = a ∨ less b a := by
  rw [find?_ofList_eq_some_iff]
  constructor
  · intro ⟨before, after, eq, other⟩
    obtain ⟨front, rest, rfl, rfl, eqRest⟩ := List.map_eq_append_iff.1 eq
    obtain ⟨a, back, rfl, eqa, rfl⟩ := List.map_eq_cons_iff.1 eqRest
    obtain ⟨rfl, rfl⟩ := Prod.mk.inj eqa
    refine ⟨a, by simp, rfl, rfl, fun b mem same => ?_⟩
    rcases List.mem_append.1 mem with mem | mem
    · exact .inr ((List.pairwise_append.1 ordered).2.2 b mem a List.mem_cons_self)
    rcases List.mem_cons.1 mem with eq | mem
    · exact .inl eq
    · exact absurd same (other (key b, value b) (List.mem_map_of_mem mem))
  · intro ⟨a, mem, eqk, eqx, greatest⟩
    obtain ⟨front, back, rfl⟩ := List.append_of_mem mem
    refine ⟨front.map fun a => (key a, value a), back.map fun a => (key a, value a), ?_,
      fun e mem same => ?_⟩
    · rw [List.map_append, List.map_cons, eqk, eqx]
    · obtain ⟨b, inBack, rfl⟩ := List.mem_map.1 mem
      have behind : less a b :=
        (List.pairwise_cons.1 (List.pairwise_append.1 ordered).2.1).1 b inBack
      rcases greatest b (by simp [inBack]) same with rfl | before
      · exact asymm b b behind behind
      · exact asymm a b behind before

theorem ofList_entries (m : SortedMap κ ν) : ofList m.entries = m := by
  apply ext_find?
  intro k
  ext x
  rw [find?_ofList_eq_some_iff, find?_eq_some_iff]
  constructor
  · intro ⟨before, after, eq, _⟩
    rw [eq]
    exact List.mem_append_right _ List.mem_cons_self
  · intro mem
    obtain ⟨before, after, eq⟩ := List.append_of_mem mem
    refine ⟨before, after, eq, fun e later same => ?_⟩
    have increasing := m.increasing
    rw [eq] at increasing
    have above := (List.pairwise_cons.1 (List.pairwise_append.1 increasing).2.1).1 e later
    rw [same, compare_self] at above
    cases above

end ContractBuild.SortedMap
