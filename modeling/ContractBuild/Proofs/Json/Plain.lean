import ContractBuild.Json.Print
import ContractBuild.Proofs.Json.Spelling

/-!
# Plain values

A value is plain if no object in it has a key twice and all its numbers are integers. Plain values
are read back from their text. What records and maps are written as is plain if their parts are.
-/

namespace ContractBuild

theorem SortedMap.distinct_entries {κ ν : Type} [Ord κ] [Std.ReflOrd κ] (m : SortedMap κ ν) :
    Table.Distinct m.entries := by
  refine List.Pairwise.map _ (fun a b less eq => ?_) m.increasing
  rw [eq, Std.ReflOrd.compare_self] at less
  cases less

namespace Json

structure Plain (x : Json) : Prop where
  proper : x.Proper
  numbers : x.Numbers Number.IsInteger

theorem Plain.reprints {x : Json} (plain : x.Plain) : x.Numbers Number.Reprints :=
  Numbers.imp (fun _ => Number.reprints_of_isInteger) x plain.numbers

theorem Plain.ofString?_text {x : Json} (plain : x.Plain) (room : x.nesting ≤ nestingLimit) :
    ofString? x.text = .ok x :=
  Json.ofString?_text plain.reprints plain.proper room

theorem plain_bool (b : Bool) : (bool b).Plain := ⟨trivial, trivial⟩

theorem plain_string (s : String) : (string s).Plain := ⟨trivial, trivial⟩

theorem plain_ofUInt64 (n : UInt64) : (ofUInt64 n).Plain := ⟨trivial, trivial⟩

theorem plain_array_iff {items : List Json} : (array items).Plain ↔ ∀ x ∈ items, x.Plain := by
  constructor
  · intro ⟨proper, numbers⟩ x mem
    exact ⟨itemsProper_iff.1 proper x mem, itemNumbers_iff.1 numbers x mem⟩
  · intro plain
    exact ⟨itemsProper_iff.2 fun x mem => (plain x mem).proper,
      itemNumbers_iff.2 fun x mem => (plain x mem).numbers⟩

theorem plain_object_iff {members : List (String × Json)} : (object members).Plain ↔
    Table.Distinct members ∧ ∀ m ∈ members, m.2.Plain := by
  constructor
  · intro ⟨⟨distinct, proper⟩, numbers⟩
    exact ⟨distinct, fun m mem =>
      ⟨membersProper_iff.1 proper m mem, memberNumbers_iff.1 numbers m mem⟩⟩
  · intro ⟨distinct, plain⟩
    exact ⟨⟨distinct, membersProper_iff.2 fun m mem => (plain m mem).proper⟩,
      memberNumbers_iff.2 fun m mem => (plain m mem).numbers⟩

section

variable {α : Type} {write : α → Json} {fields : List (String × Option Json)}

theorem fst_filterMap_sublist (fields : List (String × Option Json)) :
    ((fields.filterMap fun f => f.2.map (f.1, ·)).map Prod.fst).Sublist (fields.map Prod.fst) := by
  induction fields with
  | nil => exact .slnil
  | cons f fields ih =>
    rcases f with ⟨name, _ | x⟩
    · exact ih.cons name
    · exact ih.cons_cons name

theorem mem_filterMap_fields {m : String × Json} :
    m ∈ (fields.filterMap fun f => f.2.map (f.1, ·)) ↔ (m.1, some m.2) ∈ fields := by
  simp only [List.mem_filterMap, Option.map_eq_some_iff]
  constructor
  · rintro ⟨⟨name, x⟩, mem, y, eq, rfl⟩
    exact eq ▸ mem
  · exact fun mem => ⟨_, mem, m.2, rfl, rfl⟩

theorem plain_record (names : (fields.map Prod.fst).Nodup)
    (plain : ∀ f ∈ fields, ∀ x ∈ f.2, x.Plain) : (record fields).Plain :=
  plain_object_iff.2 ⟨names.sublist (fst_filterMap_sublist fields),
    fun m mem => plain (m.1, some m.2) (mem_filterMap_fields.1 mem) m.2 rfl⟩

theorem plain_ofMap {m : SortedMap String α} (plain : ∀ e ∈ m.entries, (write e.2).Plain) :
    (ofMap write m).Plain := by
  refine plain_object_iff.2 ⟨?_, fun written mem => ?_⟩
  · have keys : (m.entries.map fun e => (e.1, write e.2)).map Prod.fst = m.entries.map Prod.fst :=
      List.map_map
    rw [Table.Distinct, keys]
    exact m.distinct_entries
  · obtain ⟨e, inMap, rfl⟩ := List.mem_map.1 mem
    exact plain e inMap

theorem plain_ofList {items : List α} (plain : ∀ a ∈ items, (write a).Plain) :
    (ofList write items).Plain := by
  refine plain_array_iff.2 fun x mem => ?_
  obtain ⟨a, inItems, rfl⟩ := List.mem_map.1 mem
  exact plain a inItems

theorem plain_unlessEmpty {items : List α} (plain : ∀ a ∈ items, (write a).Plain) :
    ∀ x ∈ unlessEmpty write items, x.Plain := by
  intro x mem
  unfold unlessEmpty at mem
  split at mem <;> cases mem
  exact plain_ofList plain

end

end Json
end ContractBuild
