import ContractBuild.Proofs.Json.Written
import ContractBuild.Proofs.Request.Text

/-!
# Requests are read back

Every field of a request is read from what it was written as. The settings of the optimizer that are
passed on come behind the two known ones and are kept apart from them by their names.
-/

namespace ContractBuild

open Json

variable {depth : Nat}

theorem EvmVersion.parse_name (v : EvmVersion) : parse v.name = .ok v := by
  cases v <;> decide

theorem OutputKind.parse_name (kind : OutputKind) : parse kind.name = .ok kind := by
  cases kind <;> decide

theorem OutputKind.reader_tree (kind : OutputKind) : reader depth kind.json.tree = .ok kind :=
  Reader.check_tree (Reader.string_tree kind.name) (parse_name kind)

theorem OutputSelection.reader_tree (selection : OutputSelection) :
    reader (depth + 3) (OutputSelection.json selection).tree = .ok selection := by
  apply Reader.map_ofMap
  intro file _
  apply Reader.map_ofMap
  intro contract _
  apply Reader.list_ofList
  intro kind _
  exact kind.reader_tree

namespace Optimizer

variable {o : Optimizer}

def known (o : Optimizer) : List (String × Option Json) :=
  [("enabled", o.enabled.map .bool), ("runs", o.runs.map .ofUInt64)]

theorem fits_extra (clean : o.Clean) (room : o.json.nesting ≤ depth + 1) :
    ∀ e ∈ o.extra.entries, e.2.Fits depth := by
  intro e mem
  exact ⟨clean.values e mem, room_of_object room e (List.mem_append_right _ mem)⟩

theorem reader_tree (clean : o.Clean) (room : o.json.nesting ≤ depth + 1) :
    reader (depth + 1) o.json.tree = .ok o := by
  have enabled : (Fields.optional "enabled" Reader.bool).Recovers ["enabled"] depth o.known
      o.enabled := by
    apply Fields.recovers_optional List.mem_cons_self
    · intro b _ eq
      cases eq
    · exact fun b _ => Reader.bool_tree b
  have runs : (Fields.optional "runs" Reader.size).Recovers ["runs"] depth o.known o.runs := by
    apply Fields.recovers_optional (List.mem_cons_of_mem _ List.mem_cons_self)
    · intro n _ eq
      cases eq
    · exact fun n _ => Reader.size_tree n
  have recovers := (enabled.map Optimizer.mk).seq runs
  have taken : ∀ m ∈ writtenMembers o.known, ((Optimizer.mk <$> Fields.optional "enabled" Reader.bool
      <*> Fields.optional "runs" Reader.size).take m.1).isSome = true := by
    intro m mem
    have name := (fst_filterMap_sublist o.known).subset (List.mem_map_of_mem mem)
    simp only [known, List.map_cons, List.map_nil, List.mem_cons, List.not_mem_nil,
      or_false] at name
    rcases name with eq | eq
    · rw [eq]
      rfl
    · rw [eq]
      rfl
  have others : ∀ e ∈ o.extra.entries, e.1 ∉ ["enabled"] ++ ["runs"] := by
    intro e mem
    have names := clean.names e mem
    simp [names]
  have each : ∀ e ∈ o.extra.entries, Reader.json depth (id e.2).tree = .ok e.2 := by
    intro e mem
    exact Reader.json_tree (fits_extra clean room e mem)
  have read := Reader.openRecord_written "Optimizer" recovers (by simp) (by simp [known]) taken
    others each
  simp only [id, Prod.mk.eta, List.map_id'] at read
  exact read

end Optimizer

/-- Every remapping means itself once it is written. -/
def Settings.Parsed (s : Settings) : Prop :=
  ∀ remapping ∈ s.remappings, Remapping.parse remapping.text = .ok remapping

instance : DecidablePred Settings.Parsed := fun s => inferInstanceAs
  (Decidable (∀ remapping ∈ s.remappings, Remapping.parse remapping.text = .ok remapping))

namespace Settings

theorem reader_tree {s : Settings} (clean : s.Clean) (parsed : s.Parsed)
    (room : s.json.nesting ≤ depth + 4) : reader (depth + 4) s.json.tree = .ok s := by
  change _ = Except.ok (mk s.evmVersion s.optimizer s.outputSelection s.remappings)
  apply Reader.record_written (.seq (.seq (.seq (.map ?evmVersion _) ?optimizer) ?outputSelection)
    ?remappings)
  case evmVersion =>
    apply Fields.recovers_optional (by simp; rfl)
    · exact fun v _ => nofun
    · exact fun v _ => Reader.check_tree (Reader.string_tree v.name) v.parse_name
  case optimizer =>
    apply Fields.recovers_optional (by simp; rfl)
    · exact fun o _ => nofun
    · intro o some
      apply Optimizer.reader_tree (clean o some)
      exact room_of_record "optimizer" room (by simp [Option.mem_def.1 some])
  case outputSelection =>
    exact Fields.recovers_defaulted (by simp) s.outputSelection.reader_tree
  case remappings =>
    apply Fields.recovers_unlessEmpty (by simp; rfl)
    intro remapping mem
    apply Reader.check_tree (Reader.string_tree remapping.text)
    rw [parsed remapping mem]
    rfl
  · simp
  · simp

end Settings

theorem Source.reader_tree (s : Source) : reader (depth + 1) s.json.tree = .ok s := by
  change _ = Except.ok (mk s.content)
  apply Reader.record_written (.map ?content _)
  case content => exact Fields.recovers_required (by simp) (Reader.string_tree s.content)
  · simp
  · simp

namespace Request

variable {r : Request}

theorem reader_tree (clean : r.settings.Clean) (parsed : r.settings.Parsed)
    (room : r.json.nesting ≤ depth + 5) : reader (depth + 5) r.json.tree = .ok r := by
  change _ = Except.ok (mk r.language r.sources r.settings)
  apply Reader.record_written (.seq (.seq (.map ?language _) ?sources) ?settings)
  case language => exact Fields.recovers_required (by simp) (Reader.string_tree r.language)
  case sources =>
    apply Fields.recovers_required (by simp; rfl)
    exact Reader.map_ofMap fun e _ => e.2.reader_tree
  case settings =>
    apply Fields.recovers_required (by simp; rfl)
    apply Settings.reader_tree clean parsed
    exact room_of_record "settings" room (by simp)
  · simp
  · simp

/-- Reading undoes writing. -/
theorem request_read_back (clean : r.settings.Clean) (parsed : r.settings.Parsed)
    (room : r.json.nesting ≤ nestingLimit) : reader.runString r.text = .ok r := by
  rw [text, Reader.runString_text]
  exact reader_tree clean parsed room

def tangledOptimizer : Optimizer :=
  ⟨none, some 18446744073709551615, .ofList
    [("peephole", .null), ("details", .object [("yul", .bool true), ("é", .array [.ofInt32 (-1)])])]⟩

def tangled : Request :=
  ⟨solidity, .ofList [("b \"x\".sol", ⟨"// \\ é\n\x01"⟩), ("a.sol", ⟨""⟩)],
    ⟨some .petersburg, some tangledOptimizer, .artifacts,
      [⟨some "lib", "x:/", "y=z/"⟩, .everywhere "x/" "y/"]⟩⟩

theorem request_read_back_tangled : tangled.settings.Clean ∧ tangled.settings.Parsed ∧
    tangled.json.nesting ≤ nestingLimit ∧ reader.runString tangled.text = .ok tangled := by
  have extra : tangledOptimizer.extra.entries = [("details", .object [("yul", .bool true),
      ("é", .array [.ofInt32 (-1)])]), ("peephole", .null)] := by decide +kernel
  have clean : tangled.settings.Clean := by
    intro o some
    cases some
    refine ⟨?_, ?_⟩
    · rw [extra]
      decide
    · rw [extra]
      intro e mem
      simp only [List.mem_cons, List.not_mem_nil, or_false] at mem
      rcases mem with rfl | rfl
      · exact ⟨⟨by simp [Table.Distinct], trivial, ⟨trivial, trivial⟩, trivial⟩,
          trivial, ⟨trivial, trivial⟩, trivial⟩
      · exact ⟨trivial, trivial⟩
  have parsed : tangled.settings.Parsed := by decide +kernel
  have room : tangled.json.nesting ≤ nestingLimit := by decide +kernel
  exact ⟨clean, parsed, room, request_read_back clean parsed room⟩

end Request
end ContractBuild
