import ContractBuild.Request
import ContractBuild.Proofs.Json.Plain

/-!
# The text of a request

A request is written as a plain value if the optimizer's free-form settings are plain and do not
take the place of the two known ones. Its text is then read back as what was written.
-/

namespace ContractBuild

open Json

structure Optimizer.Clean (o : Optimizer) : Prop where
  names : ∀ e ∈ o.extra.entries, e.1 ≠ "enabled" ∧ e.1 ≠ "runs"
  values : ∀ e ∈ o.extra.entries, e.2.Plain

theorem Optimizer.plain_json {o : Optimizer} (clean : o.Clean) : o.json.Plain := by
  have known : ∀ f ∈ [("enabled", o.enabled.map bool), ("runs", o.runs.map ofUInt64)],
      ∀ x ∈ f.2, x.Plain := by
    intro f mem x written
    simp only [List.mem_cons, List.not_mem_nil, or_false] at mem
    rcases mem with rfl | rfl
    · obtain ⟨b, -, rfl⟩ := Option.map_eq_some_iff.1 written
      exact plain_bool b
    · obtain ⟨n, -, rfl⟩ := Option.map_eq_some_iff.1 written
      exact plain_ofUInt64 n
  refine plain_object_iff.2 ⟨?_, fun m mem => ?_⟩
  · rw [Table.Distinct, List.map_append]
    refine List.Nodup.append ?_ o.extra.distinct_entries ?_
    · exact List.Nodup.sublist (fst_filterMap_sublist _) (by simp)
    · intro name front back
      obtain ⟨e, mem, rfl⟩ := List.mem_map.1 back
      have known := (fst_filterMap_sublist _).subset front
      simp only [List.map_cons, List.map_nil, List.mem_cons, List.not_mem_nil, or_false] at known
      exact known.elim (clean.names e mem).1 (clean.names e mem).2
  · rcases List.mem_append.1 mem with mem | mem
    · exact known _ (mem_filterMap_fields.1 mem) m.2 rfl
    · exact clean.values m mem

def Settings.Clean (s : Settings) : Prop := ∀ o ∈ s.optimizer, o.Clean

theorem OutputSelection.plain_json (selection : OutputSelection) :
    (OutputSelection.json selection).Plain :=
  plain_ofMap fun _ _ => plain_ofMap fun _ _ => plain_ofList fun _ _ => plain_string _

theorem Settings.plain_json {s : Settings} (clean : s.Clean) : s.json.Plain := by
  refine plain_record (by simp) fun f mem x written => ?_
  simp only [List.mem_cons, List.not_mem_nil, or_false] at mem
  rcases mem with rfl | rfl | rfl | rfl
  · obtain ⟨v, -, rfl⟩ := Option.map_eq_some_iff.1 written
    exact plain_string _
  · obtain ⟨o, mem, rfl⟩ := Option.map_eq_some_iff.1 written
    exact Optimizer.plain_json (clean o mem)
  · cases written
    exact OutputSelection.plain_json _
  · exact plain_unlessEmpty (fun _ _ => plain_string _) x written

theorem Source.plain_json (s : Source) : s.json.Plain :=
  plain_record (List.nodup_singleton _) fun f mem x written => by
    rw [List.mem_singleton.1 mem] at written
    cases written
    exact plain_string _

namespace Request

variable {r : Request}

theorem plain_json (clean : r.settings.Clean) : r.json.Plain := by
  refine plain_record (by simp) fun f mem x written => ?_
  simp only [List.mem_cons, List.not_mem_nil, or_false] at mem
  rcases mem with rfl | rfl | rfl <;> cases written
  · exact plain_string _
  · exact plain_ofMap fun _ _ => Source.plain_json _
  · exact Settings.plain_json clean

theorem ofString?_text (clean : r.settings.Clean) (room : r.json.nesting ≤ nestingLimit) :
    Json.ofString? r.text = .ok r.json :=
  (plain_json clean).ofString?_text room

end Request
end ContractBuild
