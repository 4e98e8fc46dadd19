import ContractBuild.Response
import ContractBuild.Proofs.Imports.Segments
import ContractBuild.Proofs.Json.Plain
import ContractBuild.Proofs.Json.Uniform

/-!
# Responses are read by their values

The reader of responses sees a value and not its spelling: two texts of one value, in which no key
comes twice, give one response or one problem. A compiler need not say more of a diagnostic than its
severity and its texts, and a response that holds such diagnostics and nothing else is read as what
was written.
-/

namespace ContractBuild

open Json Json.Reader

theorem SourceLocation.reader_uniform : SourceLocation.reader.Uniform :=
  Fields.Uniform.record
    (((string_uniform.required.map _).seq (whole_uniform _).required).seq (whole_uniform _).required)

namespace Diagnostic

theorem codeReader_uniform : codeReader.Uniform := string_uniform.check _

theorem reader_uniform : Diagnostic.reader.Uniform :=
  Fields.Uniform.record <|
    ((((((SourceLocation.reader_uniform.optional.map _).seq string_uniform.defaulted).seq
      string_uniform.defaulted).seq (name_uniform _).required).seq codeReader_uniform.optional).seq
      string_uniform.required).seq string_uniform.optional

end Diagnostic

theorem SourceFile.reader_uniform : SourceFile.reader.Uniform :=
  Fields.Uniform.record <|
    (((whole_uniform _).required.map _).seq json_uniform.optional).seq json_uniform.optional

theorem Offsets.reader_uniform : Offsets.reader.Uniform :=
  Fields.Uniform.record (((whole_uniform _).required.map _).seq (whole_uniform _).required)

theorem LinkReferences.reader_uniform : LinkReferences.reader.Uniform :=
  Offsets.reader_uniform.list.map.map

theorem Bytecode.reader_uniform : Bytecode.reader.Uniform :=
  Fields.Uniform.record <|
    ((string_uniform.defaulted.map _).seq string_uniform.optional).seq
      (LinkReferences.reader_uniform.option.getD _).defaulted

theorem Code.reader_uniform : Code.reader.Uniform :=
  Fields.Uniform.record <|
    (Bytecode.reader_uniform.optional.map _).seq Bytecode.reader_uniform.optional

theorem Contract.reader_uniform : Contract.reader.Uniform :=
  Fields.Uniform.record <|
    ((json_uniform.list.option.getD _).defaulted.map _).seq Code.reader_uniform.optional

theorem Response.reader_uniform : Response.reader.Uniform :=
  Fields.Uniform.record <|
    ((Diagnostic.reader_uniform.list.defaulted.map _).seq SourceFile.reader_uniform.map.defaulted).seq
      Contract.reader_uniform.map.map.defaulted

namespace Diagnostic

def brief (severity : Severity) (message formatted : String) : Diagnostic :=
  ⟨none, "", "", severity, none, message, some formatted⟩

def IsBrief (d : Diagnostic) : Prop := d = brief d.severity d.message d.formatted

def briefJson (d : Diagnostic) : Json := .object [("severity", d.severity.json),
  ("message", .string d.message), ("formattedMessage", .string d.formatted)]

theorem isBrief_brief (severity : Severity) (message formatted : String) :
    (brief severity message formatted).IsBrief := rfl

theorem reader_briefJson (depth : Nat) {d : Diagnostic} (isBrief : d.IsBrief) :
    Diagnostic.reader (depth + 1) d.briefJson.tree = .ok d := by
  have text : ∀ s, (Json.quoted s).text = .ok s := Json.text_quoted
  obtain ⟨severity, message, formatted, rfl⟩ : ∃ severity message formatted,
      d = brief severity message formatted := ⟨_, _, _, isBrief⟩
  simp only [Diagnostic.reader, Json.Reader.record, Json.enter, briefJson, brief,
    Diagnostic.formatted, Option.getD_some, Json.tree, Json.memberTrees, Json.Fields.gather, text,
    Severity.json, bind, Except.bind]
  cases severity <;>
  simp [Severity.name, Severity.reader, text, Seq.seq, Functor.map, Json.Fields.seq,
    Json.Fields.map, Json.Fields.required, Json.Fields.field, Json.Fields.defaulted,
    Json.Fields.optional, Json.Reader.string, Json.Reader.option, Json.Reader.name, Except.map,
    bind, Except.bind, pure, Except.pure]

end Diagnostic

namespace Response

variable {ds : List Diagnostic}

def briefJson (ds : List Diagnostic) : Json := .object [("errors", .array (ds.map (·.briefJson)))]

theorem items_briefJson (depth : Nat) (brief : ∀ d ∈ ds, d.IsBrief) :
    Diagnostic.reader.items (depth + 1) (Json.itemTrees (ds.map (·.briefJson))) = .ok ds := by
  induction ds with
  | nil => rfl
  | cons d ds ih =>
    obtain ⟨first, later⟩ := List.forall_mem_cons.1 brief
    rw [List.map_cons, Json.itemTrees, Json.Reader.items, Diagnostic.reader_briefJson depth first,
      ih later]
    rfl

theorem runString_briefJson (brief : ∀ d ∈ ds, d.IsBrief) :
    Response.reader.runString (briefJson ds).text = .ok ⟨ds, .empty, .empty⟩ := by
  have limit : Json.nestingLimit = 124 + 1 + 1 + 1 := rfl
  rw [Json.Reader.runString_text, limit]
  simp only [Response.reader, Json.Reader.record, Json.enter, briefJson, Json.tree,
    Json.memberTrees, Json.Fields.gather, Json.text_quoted, bind, Except.bind]
  simp [Seq.seq, Functor.map, Json.Fields.seq, Json.Fields.map, Json.Fields.field,
    Json.Fields.defaulted, Json.Reader.list, Json.enter, items_briefJson 124 brief, Except.map,
    bind, Except.bind, pure, Except.pure]

theorem plain_briefJson (ds : List Diagnostic) : (briefJson ds).Plain := by
  refine Json.plain_object_iff.2 ⟨List.nodup_singleton _, fun m mem => ?_⟩
  rw [List.mem_singleton.1 mem]
  refine Json.plain_array_iff.2 fun x mem => ?_
  obtain ⟨d, -, rfl⟩ := List.mem_map.1 mem
  refine Json.plain_object_iff.2 ⟨?_, fun m mem => ?_⟩
  · simp [Table.Distinct]
  · simp only [List.mem_cons, List.not_mem_nil, or_false] at mem
    rcases mem with rfl | rfl | rfl <;> exact Json.plain_string _

theorem written_briefJson (ds : List Diagnostic) : (∃ ms, briefJson ds = .object ms) ∧
    ∀ d ∈ Imports.diagnostics (briefJson ds), ∃ ms, d = .object ms := by
  have written : Imports.diagnostics (briefJson ds) = ds.map (·.briefJson) := rfl
  refine ⟨⟨_, rfl⟩, fun d mem => ?_⟩
  rw [written] at mem
  obtain ⟨d, -, rfl⟩ := List.mem_map.1 mem
  exact ⟨_, rfl⟩

end Response
end ContractBuild
