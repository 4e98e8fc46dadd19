import ContractBuild.Build
import ContractBuild.Proofs.Files.Places
import ContractBuild.Proofs.Json.OpenRecords
import ContractBuild.Proofs.Request.Roundtrip
import ContractBuild.Proofs.Text.Utf8

/-!
# From a configuration to a request

A configuration is read from an object or from an array. Whatever it says of the hard fork and of
the optimizer stands in the request again, under the same names; only the two known settings of the
optimizer are left out if they are null.
-/

namespace ContractBuild

namespace Json

def Items.get? : Items → Nat → Option Tree
  | .more head _, 0 => some head
  | .more _ rest, n + 1 => rest.get? n
  | _, _ => none

/-- What a record gives for a field: the value with its name, or the one at its place. -/
def Tree.field? (name : String) (place : Nat) : Tree → Option Tree
  | .object members => (members.named name).head?
  | .array items => items.get? place
  | _ => none

/-- The value that a tree stands for, however deep it is nested. -/
def Tree.Denotes (t : Tree) (x : Json) : Prop := ∃ depth, t.json depth = .ok x

def TextDenotes (text : String) (x : Json) : Prop :=
  ∃ t rest, Tree.ofText text.toList = (t, rest) ∧ skipBlank rest = [] ∧ t.Denotes x

theorem TextDenotes.unique {text : String} {x y : Json} (denotes : TextDenotes text x)
    (denotes' : TextDenotes text y) : x = y := by
  obtain ⟨t, rest, scanned, -, depth, read⟩ := denotes
  obtain ⟨t', rest', scanned', -, depth', read'⟩ := denotes'
  cases scanned.symm.trans scanned'
  exact t.json_depth depth depth' x y read read'

theorem Plain.textDenotes_text {x : Json} (plain : x.Plain) : TextDenotes x.text x := by
  refine ⟨x.tree, [], ?_, rfl, x.nesting, Reader.json_tree ⟨plain, Nat.le_refl _⟩⟩
  rw [text, String.toList_ofList, ofText_chars]

section

variable {α : Type} {r : Reader α} {default x : α} {depth : Nat} {name : String}

/-- The value that a field is read from, or its default if there is none. -/
def Reader.Fills (r : Reader α) (depth : Nat) (default : α) : Option Tree → α → Prop
  | none, x => x = default
  | some t, x => r depth t = .ok x

theorem Fields.fills_of_reads {members : Members} (sound : members.Sound)
    (reads : (defaulted name r default).Reads depth members x) :
    r.Fills depth default (members.named name).head? x := by
  rcases (reads_field_iff sound).1 reads with ⟨none, eq⟩ | ⟨value, one, read⟩
  · rw [none]
    exact (Except.ok.inj eq).symm
  · rw [one]
    exact read

theorem Fields.fills_of_position {lack : Nat → Problem} {items rest : Items}
    (taken : (defaulted name r default).position lack depth items = .ok (x, rest)) :
    r.Fills depth default (items.get? 0) x ∧ ∀ n, rest.get? n = items.get? (n + 1) := by
  cases items with
  | more head later =>
    obtain ⟨x', read, eq⟩ := map_eq_ok_iff.1 taken
    cases eq
    exact ⟨read, fun n => rfl⟩
  | done =>
    cases taken
    exact ⟨rfl, fun n => rfl⟩
  | stopped f => cases taken

end

end Json

open Json

variable {depth : Nat}

theorem SortedMap.find?_entries {ν : Type} (m : SortedMap String ν) (key : String) :
    Table.find? key m.entries = m.find? key := by
  ext x
  rw [find?_eq_some_iff]
  exact ⟨Table.mem_of_find?, Table.find?_of_mem m.distinct_entries⟩

namespace Optimizer

variable {o : Optimizer} {given : List (String × Json)} {t : Tree}

def members (o : Optimizer) : List (String × Json) := writtenMembers o.known ++ o.extra.entries

theorem json_eq (o : Optimizer) : o.json = .object o.members := rfl

/-- The settings are those that these members give. -/
structure Passes (given : List (String × Json)) (o : Optimizer) : Prop where
  enabled : o.enabled.map .bool = (Table.last? "enabled" given).filter (· ≠ .null)
  runs : o.runs.map .ofUInt64 = (Table.last? "runs" given).filter (· ≠ .null)
  extra : ∀ key, o.extra.find? key =
    if key ∈ ["enabled", "runs"] then none else Table.last? key given

theorem find?_known (o : Optimizer) (key : String) : Table.find? key (writtenMembers o.known) =
    if key = "enabled" then o.enabled.map .bool
    else if key = "runs" then o.runs.map .ofUInt64 else none := by
  have names : (o.known.map Prod.fst).Nodup := by simp [known]
  split
  · subst key
    exact find?_writtenMembers names (by simp [known])
  · split
    · subst key
      exact find?_writtenMembers names (by simp [known])
    · rename_i enabled runs
      apply Option.eq_none_iff_forall_ne_some.2
      intro x found
      have mem := mem_filterMap_fields.1 (Table.mem_of_find? found)
      simp [known, enabled, runs] at mem

theorem Passes.find? (passes : o.Passes given) (key : String) : Table.find? key o.members =
    if key ∈ ["enabled", "runs"] then (Table.last? key given).filter (· ≠ .null)
    else Table.last? key given := by
  rw [members, Table.find?_append_eq_or, find?_known, SortedMap.find?_entries, passes.extra]
  by_cases enabled : key = "enabled"
  · subst enabled
    simp [passes.enabled]
  · by_cases runs : key = "runs"
    · subst runs
      simp [passes.runs]
    · simp [enabled, runs]

theorem Passes.mem_given (passes : o.Passes given) {e : String × Json} (mem : e ∈ o.extra.entries) :
    e.1 ∉ ["enabled", "runs"] ∧ e ∈ given := by
  have found := passes.extra e.1
  rw [(SortedMap.find?_eq_some_iff _).2 mem] at found
  split at found
  · cases found
  · exact ⟨‹_›, Table.mem_of_last? found.symm⟩

theorem Passes.clean (passes : o.Passes given) (plain : ∀ m ∈ given, m.2.Plain) : o.Clean where
  names e mem := by simpa using (passes.mem_given mem).1
  values e mem := plain e (passes.mem_given mem).2

theorem Passes.nesting_le (passes : o.Passes given) (room : ∀ m ∈ given, m.2.nesting ≤ depth) :
    o.json.nesting ≤ depth + 1 := by
  have inside : memberNesting o.members ≤ depth := by
    apply memberNesting_le_iff.2
    intro m mem
    rcases List.mem_append.1 mem with known | other
    · have written := mem_filterMap_fields.1 known
      simp only [Optimizer.known, List.mem_cons, List.not_mem_nil, or_false, Prod.mk.injEq] at written
      rcases written with ⟨-, some⟩ | ⟨-, some⟩
      · obtain ⟨b, -, eq⟩ := Option.map_eq_some_iff.1 some.symm
        rw [← eq]
        exact Nat.zero_le _
      · obtain ⟨n, -, eq⟩ := Option.map_eq_some_iff.1 some.symm
        rw [← eq]
        exact Nat.zero_le _
    · exact room m (passes.mem_given other).2
  rw [json_eq, nesting]
  omega

section

open Fields

def knownFields : Fields (SortedMap String Json → Optimizer) :=
  mk <$> optional "enabled" Reader.bool <*> optional "runs" Reader.size

theorem isSome_take_knownFields (key : String) :
    (knownFields.take key).isSome = true ↔ key ∈ ["enabled", "runs"] := by
  constructor
  · exact within_seq (within_map (within_field _ _ _ _) _) (within_field _ _ _ _) key
  · intro mem
    simp only [List.mem_cons, List.not_mem_nil, or_false] at mem
    rcases mem with rfl | rfl <;> rfl

theorem decodes_knownFields : knownFields.Decodes :=
  ((decodes_field Reader.bool_denotes.option.decodes _ _ _).map mk).seq
    (decodes_field Reader.size_denotes.option.decodes _ _ _)

theorem reader_passes (read : reader depth t = .ok o) : ∃ d ms given, depth = d + 1 ∧
    t = .object ms ∧ ms.json d = .ok given ∧ o.Passes given := by
  cases t with
  | object ms =>
    obtain ⟨d, room, inner⟩ := bind_eq_ok_iff.1 read
    obtain ⟨⟨draft, m⟩, gathered, finished⟩ := bind_eq_ok_iff.1 inner
    obtain ⟨f, made, last⟩ := bind_eq_ok_iff.1 finished
    cases last
    obtain ⟨given, values⟩ := (decodes_knownFields.seq
      (decodes_others Reader.json_denotes.decodes)).exists_json (take_others_isSome _ _) ms _ _ gathered
    -- no member is skipped, so all of them are values
    have sound := Members.sound_of_json values
    obtain ⟨front, back⟩ := gather_others values gathered
    obtain ⟨f, runs, first, readRuns, rfl⟩ := (reads_seq_iff sound
      (within_map (within_field _ _ _ _) _) (within_field _ _ _ _) (by simp)).1 ⟨draft, front, made⟩
    obtain ⟨enabled, readEnabled, rfl⟩ := (reads_map_iff sound).1 first
    refine ⟨d, ms, given, enter_eq_ok_iff.1 room, rfl, values, ?_, ?_, fun key => ?_⟩
    · apply map_write_of_reads Reader.bool_denotes _ values readEnabled
      intro b eq
      cases eq
    · apply map_write_of_reads Reader.size_denotes _ values readRuns
      intro n eq
      cases eq
    · have found := back key
      have none : SortedMap.find? (others Reader.json).start key = none := SortedMap.find?_empty key
      rw [none, Option.or_none] at found
      simp only [← isSome_take_knownFields]
      exact found
  | null | bool | number | string | array | broken => cases read

end

theorem reader_yields : reader.Yields fun depth o => o.Clean ∧ o.json.nesting ≤ max depth 1 := by
  intro depth t o integers read
  obtain ⟨d, ms, given, rfl, rfl, values, passes⟩ := reader_passes read
  obtain ⟨proper, room⟩ := ms.proper_of_json d given values
  have numbers := Members.Integers.numbers ms integers d given values
  constructor
  · exact passes.clean fun m mem =>
      ⟨membersProper_iff.1 proper m mem, memberNumbers_iff.1 numbers m mem⟩
  · exact (passes.nesting_le (memberNesting_le_iff.1 room)).trans (Nat.le_max_left _ _)

end Optimizer

namespace Config

variable {config : Config} {t : Tree}

section

open Fields

/-- Each part of a configuration is read from its own field. -/
structure Filled (depth : Nat) (t : Tree) (config : Config) : Prop where
  version : Reader.string.option.Fills depth none (t.field? "version" 0) config.version
  evmVersion : (Reader.string.check EvmVersion.parse).Fills depth .default
    (t.field? "evmVersion" 1) config.evmVersion
  optimizer : Optimizer.reader.Fills depth .default (t.field? "optimizer" 2) config.optimizer

theorem decodes_optimizer : Optimizer.reader.Decodes := by
  intro depth t o read
  obtain ⟨d, ms, given, rfl, rfl, values, -⟩ := Optimizer.reader_passes read
  exact ⟨_, Tree.json_object_eq_ok_iff.2 ⟨d, given, rfl, values, rfl⟩⟩

theorem reader_filled (read : reader depth t = .ok config) :
    ∃ d, depth = d + 1 ∧ config.Filled d t := by
  have version := decodes_field Reader.string_denotes.option.decodes "version" (.ok none) (some none)
  have evmVersion := decodes_field (Reader.string_denotes.decodes.check EvmVersion.parse)
    "evmVersion" (.ok .default) (some .default)
  have optimizer := decodes_field decodes_optimizer "optimizer" (.ok .default) (some .default)
  cases t with
  | object members =>
    obtain ⟨d, rfl, reads⟩ := Reader.record_object_eq_ok_iff.1 read
    obtain ⟨draft, gathered, finished⟩ := reads
    have sound := (((version.map mk).seq evmVersion).seq optimizer).sound members _ _ gathered
    obtain ⟨f, o, firstTwo, readOptimizer, rfl⟩ := (reads_seq_iff sound
      (within_seq (within_map (within_field _ _ _ _) _) (within_field _ _ _ _))
      (within_field _ _ _ _) (by simp)).1 ⟨draft, gathered, finished⟩
    obtain ⟨g, v, first, readEvmVersion, rfl⟩ := (reads_seq_iff sound
      (within_map (within_field _ _ _ _) _) (within_field _ _ _ _) (by simp)).1 firstTwo
    obtain ⟨name, readVersion, rfl⟩ := (reads_map_iff sound).1 first
    exact ⟨d, rfl, fills_of_reads sound readVersion, fills_of_reads sound readEvmVersion,
      fills_of_reads sound readOptimizer⟩
  | array items =>
    -- each field takes the item that the fields before it left first
    obtain ⟨d, room, inner⟩ := bind_eq_ok_iff.1 read
    obtain ⟨⟨c, rest⟩, taken, last⟩ := bind_eq_ok_iff.1 inner
    obtain ⟨⟨f, behindTwo⟩, firstTwo, third⟩ := bind_eq_ok_iff.1 taken
    obtain ⟨⟨g, behindOne⟩, first, second⟩ := bind_eq_ok_iff.1 firstTwo
    obtain ⟨⟨name, _⟩, readVersion, eq⟩ := map_eq_ok_iff.1 first
    cases eq
    obtain ⟨⟨v, _⟩, readEvmVersion, eq⟩ := bind_eq_ok_iff.1 second
    cases eq
    obtain ⟨⟨o, _⟩, readOptimizer, eq⟩ := bind_eq_ok_iff.1 third
    cases eq
    obtain ⟨version, behindOne⟩ := fills_of_position readVersion
    obtain ⟨evmVersion, behindTwo⟩ := fills_of_position readEvmVersion
    obtain ⟨optimizer, -⟩ := fills_of_position readOptimizer
    rw [behindTwo, behindOne] at optimizer
    rw [behindOne] at evmVersion
    obtain ⟨-, -, whole⟩ := bind_eq_ok_iff.1 last
    obtain rfl : mk name v o = config := pure_eq_ok_iff.1 whole
    exact ⟨d, enter_eq_ok_iff.1 room, version, evmVersion, optimizer⟩
  | null | bool | number | string | broken => cases read

end

theorem reader_yields : reader.Yields fun depth c =>
    c.optimizer.Clean ∧ c.optimizer.json.nesting ≤ max (depth - 1) 1 := by
  apply Reader.record_yields (P := fun depth (c : Config) =>
    c.optimizer.Clean ∧ c.optimizer.json.nesting ≤ max depth 1)
  have unset : ∀ depth, Optimizer.default.Clean ∧ Optimizer.default.json.nesting ≤ max depth 1 :=
    fun depth => ⟨⟨nofun, nofun⟩, Nat.le_max_right _ _⟩
  apply Fields.Yields.seq _ (Fields.yields_defaulted Optimizer.reader_yields unset)
  apply Fields.Yields.seq _ (Fields.yields_defaulted (Reader.yields_true _) fun _ => trivial)
  apply Fields.Yields.map (Fields.yields_optional (Reader.yields_true _))
  intro depth version _ evmVersion _ optimizer fits
  exact fits

theorem reader_tree (clean : config.optimizer.Clean)
    (room : config.optimizer.json.nesting ≤ depth + 1) :
    reader (depth + 2) config.json.tree = .ok config := by
  change _ = Except.ok (mk config.version config.evmVersion config.optimizer)
  apply Reader.record_written (.seq (.seq (.map ?version _) ?evmVersion) ?optimizer)
  case version =>
    apply Fields.recovers_optional (by simp; rfl)
    · intro name _ eq
      cases eq
    · exact fun name _ => Reader.string_tree name
  case evmVersion =>
    apply Fields.recovers_defaulted (by simp; rfl)
    exact Reader.check_tree (Reader.string_tree _) config.evmVersion.parse_name
  case optimizer =>
    apply Fields.recovers_defaulted (by simp; rfl)
    exact Optimizer.reader_tree clean room
  · simp
  · simp

theorem load_of_write {files files' : FileTree} {path : String}
    (read : reader.runString config.json.text = .ok config)
    (written : files.write path (Utf8.encode config.json.text) = .ok files') :
    load files' path = .ok config := by
  have found : files'.readText path = .ok config.json.text :=
    bind_eq_ok_iff.2 ⟨_, FileTree.read_of_write written, by rw [Utf8.decode_encode]; rfl⟩
  rw [load, found]
  simp only [Except.mapError, bind, Except.bind, read]

end Config

inductive AsksFork : Option Tree → Json → Prop
  | unset : AsksFork none (.string "byzantium")
  | set {t : Tree} {name : Json} (same : t.Denotes name) : AsksFork (some t) name

/-- The settings of the optimizer that a request asks for, by what is configured for them. A setting
that is given more than once counts as it is given last. -/
inductive AsksOptimizer : Option Tree → Json → Prop
  | unset : AsksOptimizer none (.object [("enabled", .bool false), ("runs", .ofUInt64 200)])
  | set {members : Members} {depth : Nat} {given asked : List (String × Json)}
      (values : members.json depth = .ok given) (distinct : Table.Distinct asked)
      (same : ∀ key, Table.find? key asked =
        if key ∈ ["enabled", "runs"] then (Table.last? key given).filter (· ≠ .null)
        else Table.last? key given) : AsksOptimizer (some (.object members)) (.object asked)

theorem EvmVersion.name_of_parse {name : String} {v : EvmVersion} (parsed : parse name = .ok v) :
    v.name = name := by
  unfold parse at parsed
  cases found : ofName? name with
  | none =>
    rw [found] at parsed
    cases parsed
  | some v' =>
    rw [found] at parsed
    cases parsed
    simpa using List.find?_some found

namespace Config

variable {config : Config} {t : Tree}

theorem Filled.asksFork (filled : config.Filled depth t) :
    AsksFork (t.field? "evmVersion" 1) (.string config.evmVersion.name) := by
  have read := filled.evmVersion
  cases given : t.field? "evmVersion" 1 with
  | none =>
    rw [given] at read
    rw [show config.evmVersion = .default from read]
    exact .unset
  | some value =>
    rw [given] at read
    obtain ⟨name, text, parsed⟩ := bind_eq_ok_iff.1 read
    split at parsed <;> cases parsed
    rw [EvmVersion.name_of_parse ‹_›]
    exact .set ⟨depth, Reader.string_denotes depth value name text⟩

theorem Filled.asksOptimizer (filled : config.Filled depth t) (clean : config.optimizer.Clean) :
    AsksOptimizer (t.field? "optimizer" 2) config.optimizer.json := by
  have read := filled.optimizer
  cases given : t.field? "optimizer" 2 with
  | none =>
    rw [given] at read
    rw [show config.optimizer = .default from read]
    exact .unset
  | some value =>
    rw [given] at read
    obtain ⟨d, ms, given, rfl, rfl, values, passes⟩ := Optimizer.reader_passes read
    exact .set values (plain_object_iff.1 (Optimizer.plain_json clean)).1 passes.find?

/-- A configuration that was read from a text of integers asks for the hard fork and for the
settings of the optimizer that the text gives, whatever the sources are. It is read again from what
it is written as, also by way of a file. -/
theorem settings_passed_on {text : String} (integers : IntegerText text)
    (accepted : reader.runString text = .ok config) :
    (∀ sources : CanonicalSources, ∃ x settings fork optimizer,
      TextDenotes (Request.ofSources sources config).text x ∧ x.get? "settings" = some settings ∧
      settings.get? "evmVersion" = some fork ∧ settings.get? "optimizer" = some optimizer ∧
      AsksFork ((Tree.ofText text.toList).1.field? "evmVersion" 1) fork ∧
      AsksOptimizer ((Tree.ofText text.toList).1.field? "optimizer" 2) optimizer) ∧
    reader.runString config.json.text = .ok config ∧
    ∀ files files' path, FileTree.write files path (Utf8.encode config.json.text) = .ok files' →
      load files' path = .ok config := by
  have read := Reader.read_of_runString accepted
  obtain ⟨clean, room⟩ := reader_yields nestingLimit _ config integers.integers read
  obtain ⟨d, -, filled⟩ := reader_filled read
  have again : reader.runString config.json.text = .ok config := by
    rw [Reader.runString_text]
    exact reader_tree clean room
  refine ⟨fun sources => ?_, again, fun files files' path => load_of_write again⟩
  have plain : (Request.ofSources sources config).json.Plain := by
    apply Request.plain_json
    intro o some
    cases some
    exact clean
  exact ⟨_, _, _, _, plain.textDenotes_text, rfl, rfl, rfl, filled.asksFork,
    filled.asksOptimizer clean⟩

def unevenText : String :=
  "\x7b\"optimizer\":\x7b\"runs\":null,\"yul\":[1,-2],\"details\":null,\"yul\":\x7b\"b\":0,\"a\":true\x7d," ++
  "\"enabled\":true\x7d,\"solc\":[null],\"version\":\" 0.4.25\"\x7d"

def uneven : Config :=
  ⟨some " 0.4.25", .byzantium, ⟨some true, none, .ofList
    [("details", .null), ("yul", .object [("b", .ofInt32 0), ("a", .bool true)])]⟩⟩

theorem settings_passed_on_uneven : IntegerText unevenText ∧
    reader.runString unevenText = .ok uneven ∧ reader.runString uneven.json.text = .ok uneven := by
  have integers : IntegerText unevenText := by decide +kernel
  have accepted : reader.runString unevenText = .ok uneven := by decide +kernel
  exact ⟨integers, accepted, (settings_passed_on integers accepted).2.1⟩

end Config
end ContractBuild
