import ContractBuild.Proofs.Artifact.Assembly
import ContractBuild.Proofs.Response.Roundtrip

/-!
# Artifacts are read back

The trees and the interface of an artifact are those of the response it was made from, at most in
another order. In the written artifacts they stand no deeper than in the text of the response, so
that the levels suffice again.
-/

namespace ContractBuild

open Json

variable {depth : Nat}

theorem CompilerInfo.reader_tree (c : CompilerInfo) : reader (depth + 1) c.json.tree = .ok c := by
  change _ = Except.ok (mk c.name c.version)
  apply Reader.record_written (.seq (.map ?name _) ?version)
  case name => exact Fields.recovers_required (by simp) (Reader.string_tree c.name)
  case version => exact Fields.recovers_required (by simp) (Reader.string_tree c.version)
  · simp
  · simp

namespace Artifact

structure Fits (depth : Nat) (a : Artifact) : Prop where
  legacyAst : ∀ x ∈ a.legacyAst, x ≠ .null ∧ x.Fits (depth + 1)
  ast : ∀ x ∈ a.ast, x ≠ .null ∧ x.Fits (depth + 1)
  abi : ∀ x ∈ a.abi, x.Fits depth

theorem reader_tree {a : Artifact} (fits : a.Fits depth) :
    reader (depth + 2) a.json.tree = .ok a := by
  change _ = Except.ok (mk a.contractName a.sourcePath a.source a.sourceMap a.deployedSourceMap
    a.legacyAst a.ast a.abi a.bytecode a.deployedBytecode a.unlinkedBinary a.compiler)
  rw [json, object_eq_record]
  apply Reader.record_written (.seq (.seq (.seq (.seq (.seq (.seq (.seq (.seq (.seq (.seq (.seq
    (.map ?contractName _) ?sourcePath) ?source) ?sourceMap) ?deployedSourceMap) ?legacyAst) ?ast)
    ?abi) ?bytecode) ?deployedBytecode) ?unlinkedBinary) ?compiler)
  case contractName => exact Fields.recovers_required (by simp) (Reader.string_tree a.contractName)
  case sourcePath => exact Fields.recovers_required (by simp) (Reader.string_tree a.sourcePath)
  case source => exact Fields.recovers_required (by simp) (Reader.string_tree a.source)
  case sourceMap =>
    apply Fields.recovers_ofOption (by simp; rfl)
    · intro s _ eq
      cases eq
    · exact fun s _ => Reader.string_tree s
  case deployedSourceMap =>
    apply Fields.recovers_ofOption (by simp; rfl)
    · intro s _ eq
      cases eq
    · exact fun s _ => Reader.string_tree s
  case legacyAst =>
    apply Fields.recovers_ofOption (by simp; rfl)
    · exact fun x mem => (fits.legacyAst x mem).1
    · exact fun x mem => Reader.json_tree (fits.legacyAst x mem).2
  case ast =>
    apply Fields.recovers_ofOption (by simp; rfl)
    · exact fun x mem => (fits.ast x mem).1
    · exact fun x mem => Reader.json_tree (fits.ast x mem).2
  case abi => exact Fields.recovers_required (by simp) (Reader.json_list_array fits.abi)
  case bytecode => exact Fields.recovers_required (by simp) (Reader.string_tree a.bytecode)
  case deployedBytecode =>
    exact Fields.recovers_required (by simp) (Reader.string_tree a.deployedBytecode)
  case unlinkedBinary =>
    exact Fields.recovers_required (by simp) (Reader.string_tree a.unlinkedBinary)
  case compiler => exact Fields.recovers_required (by simp) a.compiler.reader_tree
  · simp
  · simp

end Artifact

theorem CompiledContracts.reader_tree {c : CompiledContracts}
    (fits : ∀ e ∈ c.contracts.entries, e.2.Fits depth) :
    reader (depth + 4) c.json.tree = .ok c := by
  change _ = Except.ok (mk c.contracts c.files)
  rw [json, object_eq_record]
  apply Reader.record_written (.seq (.map ?contracts _) ?files)
  case contracts =>
    apply Fields.recovers_required (by simp; rfl)
    exact Reader.map_ofMap fun e mem => Artifact.reader_tree (fits e mem)
  case files =>
    apply Fields.recovers_required (by simp; rfl)
    exact Reader.uint32Map_ofUInt32Map fun e _ => Reader.string_tree e.2
  · simp
  · simp

namespace DeclarationOrder

theorem mem_of_mem_order {contract : String} {legacyTree tree : Option Json} {abi : List Json}
    {x : Json} (mem : x ∈ order contract legacyTree tree abi) : x ∈ abi := by
  unfold order at mem
  split at mem
  · rcases List.mem_append.1 mem with front | behind
    · exact List.mem_of_mem_filter front
    · exact List.mem_of_mem_filter (List.mem_mergeSort.1 behind)
  · exact mem

end DeclarationOrder

section

variable {response : Response} {sources : CanonicalSources} {compiler : CompilerInfo}

theorem Declaration.Yields.fits {path name : String} {contract : Contract} {a : Artifact}
    (yields : Yields response sources compiler path name contract a) (fits : response.Fits depth)
    (declared : response.contract? path name = some contract) : a.Fits (depth + 1) := by
  have file : ∀ f, response.sources.find? path = some f → f.Fits (depth + 2) := by
    intro f found
    exact fits.sources (path, f) ((SortedMap.find?_eq_some_iff _).1 found)
  refine ⟨?_, ?_, ?_⟩
  · intro x mem
    rw [yields.legacyAst] at mem
    obtain ⟨f, found, tree⟩ := Option.bind_eq_some_iff.1 mem
    exact (file f found).legacyAst x tree
  · intro x mem
    rw [yields.ast] at mem
    obtain ⟨f, found, tree⟩ := Option.bind_eq_some_iff.1 mem
    exact (file f found).ast x tree
  · intro x mem
    rw [yields.abi] at mem
    obtain ⟨contracts, inResponse, inFile⟩ := Option.bind_eq_some_iff.1 declared
    have known := fits.contracts (path, contracts) ((SortedMap.find?_eq_some_iff _).1 inResponse)
      (name, contract) ((SortedMap.find?_eq_some_iff _).1 inFile)
    exact (known x (DeclarationOrder.mem_of_mem_order mem)).mono (Nat.le_succ depth)

theorem fits_of_assemble {c : CompiledContracts} (fits : response.Fits depth)
    (assembled : assemble response sources compiler = .ok c) :
    ∀ e ∈ c.contracts.entries, e.2.Fits (depth + 1) := by
  obtain ⟨artifacts, all, contracts, -⟩ := assemble_eq_ok assembled
  have made : MadeOf response sources compiler artifacts := mapM_eq_ok_iff.1 all
  intro e mem
  rw [contracts] at mem
  obtain ⟨a, inArtifacts, rfl⟩ := List.mem_map.1 (SortedMap.mem_of_mem_ofList mem)
  rw [← made.map_snd] at inArtifacts
  obtain ⟨⟨d, a⟩, both, rfl⟩ := List.mem_map.1 inArtifacts
  exact (made.yields both).fits fits (Declaration.mem_all.1 (made.mem_all both)).1

end

/-- Whatever a text of integers is assembled to, the written artifacts are read back. -/
theorem artifacts_read_back {text : String} {response : Response} {sources : CanonicalSources}
    {compiler : CompilerInfo} {c : CompiledContracts} (integers : IntegerText text)
    (accepted : Response.reader.runString text = .ok response)
    (assembled : assemble response sources compiler = .ok c) :
    CompiledContracts.reader.runString c.json.text = .ok c := by
  rw [Reader.runString_text]
  have fits := Response.fits_of_text integers accepted
  exact CompiledContracts.reader_tree (fits_of_assemble fits assembled)

def sparseText : String :=
  "\x7b\"sources\":\x7b\"a\":[7,\x7b\x7d,null],\"b\":" ++
    "\x7b\"id\":4294967295,\"ast\":\x7b\"k\":[-1]\x7d\x7d\x7d," ++
  "\"contracts\":\x7b\"a\":\x7b\"C\":[[\x7b\"name\":\"f\"\x7d,0]]\x7d," ++
    "\"b\":\x7b\"D\":[null,[[\"60\",\"1:2\"]]]\x7d\x7d\x7d"

def sparse : Response where
  errors := []
  sources := .ofList [("a", ⟨7, some (.object []), none⟩),
    ("b", ⟨4294967295, some (.object [("k", .array [.ofInt32 (-1)])]), none⟩)]
  contracts := .ofList
    [("a", .singleton "C" ⟨[.object [("name", .string "f")], .ofUInt32 0], none⟩),
     ("b", .singleton "D" ⟨[], some ⟨some ⟨"60", some "1:2", .empty⟩, none⟩⟩)]

theorem artifacts_read_back_sparse : IntegerText sparseText ∧
    Response.reader.runString sparseText = .ok sparse ∧
    ∃ c, assemble sparse .empty (.solc "0.5.4") = .ok c ∧
      CompiledContracts.reader.runString c.json.text = .ok c := by
  have integers : IntegerText sparseText := by decide +kernel
  have accepted : Response.reader.runString sparseText = .ok sparse := by decide +kernel
  obtain ⟨c, assembled⟩ : ∃ c, assemble sparse .empty (.solc "0.5.4") = .ok c := ⟨_, rfl⟩
  exact ⟨integers, accepted, c, assembled, artifacts_read_back integers accepted assembled⟩

end ContractBuild
