import ContractBuild.Response
import ContractBuild.Proofs.Json.Decoded
import ContractBuild.Proofs.Number.Digits

/-!
# Responses are read back

What a response text was read as is written in one way only, whichever of its forms the text had: a
missing field, a null and a default come to the same. The written response is read back as long as
its trees and interfaces fit in the levels that the text left for them.
-/

namespace ContractBuild

open Json

variable {depth : Nat}

theorem Unsigned.append_eq_ok {limit n : Nat} {ds : List Char} (digits : ds.all Char.isDigit = true)
    (below : ds.foldl Digits.push n < limit) : append limit n ds = .ok (ds.foldl Digits.push n) := by
  induction ds generalizing n with
  | nil => rfl
  | cons c rest ih =>
    rw [List.all_cons, Bool.and_eq_true] at digits
    have small : Digits.push n c < limit := (Digits.le_foldl_push _ rest).trans_lt below
    rw [append, if_pos digits.1, if_pos small]
    exact ih digits.2 below

theorem Unsigned.read_digits {limit n : Nat} (below : n < limit) :
    read limit (Digits.digits n) = .ok n := by
  have number : (Digits.digits n).foldl Digits.push 0 = n := Digits.number_digits n
  have appended : append limit 0 (Digits.digits n) = .ok n := by
    rw [append_eq_ok]
    · rw [number]
    · exact List.all_eq_true.2 fun c mem => Digits.isDigit_of_mem_digits mem
    · rwa [number]
  obtain ⟨c, cs, eq⟩ := List.exists_cons_of_ne_nil (Digits.digits_ne_nil n)
  have digit : c.isDigit = true := by
    apply Digits.isDigit_of_mem_digits
    rw [eq]
    exact List.mem_cons_self
  have unsigned : c ≠ '+' := by
    intro plus
    subst plus
    cases digit
  rw [eq] at appended ⊢
  rw [read]
  · exact appended
  · exact nofun
  · intro eq
    exact unsigned (List.cons.inj eq).1
  · intro digits eq
    exact unsigned (List.cons.inj eq).1

theorem Severity.reader_tree (s : Severity) : reader depth s.json.tree = .ok s := by
  cases s <;> rfl

theorem SourceLocation.reader_tree (l : SourceLocation) :
    reader (depth + 1) l.json.tree = .ok l := by
  change _ = Except.ok (mk l.file l.start l.stop)
  apply Reader.record_written (.seq (.seq (.map ?file _) ?start) ?stop)
  case file => exact Fields.recovers_required (by simp) (Reader.string_tree l.file)
  case start => exact Fields.recovers_required (by simp) (Reader.int32_tree l.start)
  case stop => exact Fields.recovers_required (by simp) (Reader.int32_tree l.stop)
  · simp
  · simp

namespace Diagnostic

theorem codeReader_tree (code : UInt64) :
    codeReader depth (Json.string (codeText code)).tree = .ok code := by
  apply Reader.check_tree (Reader.string_tree _)
  rw [codeText, Digits.text, String.toList_ofList, Unsigned.read_digits code.toNat_lt]
  exact congrArg Except.ok UInt64.ofNat_toNat

theorem reader_tree (d : Diagnostic) : reader (depth + 2) d.json.tree = .ok d := by
  change _ = Except.ok (mk d.location d.type d.component d.severity d.code d.message
    d.formattedMessage)
  apply Reader.record_written (.seq (.seq (.seq (.seq (.seq (.seq (.map ?location _) ?type)
    ?component) ?severity) ?code) ?message) ?formattedMessage)
  case location =>
    apply Fields.recovers_optional (by simp; rfl)
    · intro l _ eq
      cases eq
    · exact fun l _ => l.reader_tree
  case type => exact Fields.recovers_defaulted (by simp) (Reader.string_tree d.type)
  case component => exact Fields.recovers_defaulted (by simp) (Reader.string_tree d.component)
  case severity => exact Fields.recovers_required (by simp) d.severity.reader_tree
  case code =>
    apply Fields.recovers_ofOption (by simp; rfl)
    · intro code _ eq
      cases eq
    · exact fun code _ => codeReader_tree code
  case message => exact Fields.recovers_required (by simp) (Reader.string_tree d.message)
  case formattedMessage =>
    apply Fields.recovers_ofOption (by simp; rfl)
    · intro s _ eq
      cases eq
    · exact fun s _ => Reader.string_tree s
  · simp
  · simp

end Diagnostic

theorem Offsets.reader_tree (o : Offsets) : reader (depth + 1) o.json.tree = .ok o := by
  change _ = Except.ok (mk o.start o.length)
  apply Reader.record_written (.seq (.map ?start _) ?length)
  case start => exact Fields.recovers_required (by simp) (Reader.uint32_tree o.start)
  case length => exact Fields.recovers_required (by simp) (Reader.uint32_tree o.length)
  · simp
  · simp

theorem LinkReferences.reader_tree (references : LinkReferences) :
    reader (depth + 4) (LinkReferences.json references).tree = .ok references := by
  apply Reader.map_ofMap
  intro file _
  apply Reader.map_ofMap
  intro library _
  apply Reader.list_ofList
  intro o _
  exact o.reader_tree

theorem Bytecode.reader_tree (b : Bytecode) : reader (depth + 5) b.json.tree = .ok b := by
  change _ = Except.ok (mk b.object b.sourceMap b.linkReferences)
  apply Reader.record_written (.seq (.seq (.map ?object _) ?sourceMap) ?linkReferences)
  case object => exact Fields.recovers_defaulted (by simp) (Reader.string_tree b.object)
  case sourceMap =>
    apply Fields.recovers_optional (by simp; rfl)
    · intro s _ eq
      cases eq
    · exact fun s _ => Reader.string_tree s
  case linkReferences =>
    apply Fields.recovers_defaulted (by simp; rfl)
    apply Reader.getD_tree
    apply Reader.option_tree
    · intro eq
      cases eq
    · exact b.linkReferences.reader_tree
  · simp
  · simp

theorem Code.reader_tree (c : Code) : reader (depth + 6) c.json.tree = .ok c := by
  change _ = Except.ok (mk c.creation c.deployed)
  apply Reader.record_written (.seq (.map ?creation _) ?deployed)
  case creation =>
    apply Fields.recovers_optional (by simp; rfl)
    · exact fun b _ => nofun
    · exact fun b _ => b.reader_tree
  case deployed =>
    apply Fields.recovers_optional (by simp; rfl)
    · exact fun b _ => nofun
    · exact fun b _ => b.reader_tree
  · simp
  · simp

def Contract.Fits (depth : Nat) (c : Contract) : Prop := ∀ x ∈ c.abi, x.Fits depth

theorem Contract.reader_tree {c : Contract} (fits : c.Fits (depth + 5)) :
    reader (depth + 7) c.json.tree = .ok c := by
  change _ = Except.ok (mk c.abi c.code)
  apply Reader.record_written (.seq (.map ?abi _) ?code)
  case abi =>
    apply Fields.recovers_defaulted (by simp; rfl)
    apply Reader.getD_tree
    apply Reader.option_tree
    · exact nofun
    · exact Reader.json_list_array fits
  case code =>
    apply Fields.recovers_optional (by simp; rfl)
    · exact fun c _ => nofun
    · exact fun c _ => c.reader_tree
  · simp
  · simp

structure SourceFile.Fits (depth : Nat) (f : SourceFile) : Prop where
  ast : ∀ x ∈ f.ast, x ≠ .null ∧ x.Fits depth
  legacyAst : ∀ x ∈ f.legacyAst, x ≠ .null ∧ x.Fits depth

theorem SourceFile.Fits.mono {depth' : Nat} {f : SourceFile} (fits : f.Fits depth)
    (le : depth ≤ depth') : f.Fits depth' where
  ast x mem := ⟨(fits.ast x mem).1, (fits.ast x mem).2.mono le⟩
  legacyAst x mem := ⟨(fits.legacyAst x mem).1, (fits.legacyAst x mem).2.mono le⟩

theorem SourceFile.reader_tree {f : SourceFile} (fits : f.Fits depth) :
    reader (depth + 1) f.json.tree = .ok f := by
  change _ = Except.ok (mk f.id f.ast f.legacyAst)
  apply Reader.record_written (.seq (.seq (.map ?id _) ?ast) ?legacyAst)
  case id => exact Fields.recovers_required (by simp) (Reader.uint32_tree f.id)
  case ast => exact Fields.recovers_optional_json (by simp) fits.ast
  case legacyAst => exact Fields.recovers_optional_json (by simp) fits.legacyAst
  · simp
  · simp

/-- All that is free-form fits, seen from the level of the interfaces, which lie deepest. -/
structure Response.Fits (depth : Nat) (r : Response) : Prop where
  sources : ∀ e ∈ r.sources.entries, e.2.Fits (depth + 2)
  contracts : ∀ file ∈ r.contracts.entries, ∀ e ∈ file.2.entries, e.2.Fits depth

theorem Response.reader_tree {r : Response} (fits : r.Fits (depth + 5)) :
    reader (depth + 10) r.json.tree = .ok r := by
  change _ = Except.ok (mk r.errors r.sources r.contracts)
  apply Reader.record_written (.seq (.seq (.map ?errors _) ?sources) ?contracts)
  case errors =>
    apply Fields.recovers_unlessEmpty (by simp; rfl)
    exact fun d _ => d.reader_tree
  case sources =>
    apply Fields.recovers_defaulted (by simp; rfl)
    exact Reader.map_ofMap fun e mem => SourceFile.reader_tree (fits.sources e mem)
  case contracts =>
    apply Fields.recovers_defaulted (by simp; rfl)
    apply Reader.map_ofMap
    intro file mem
    exact Reader.map_ofMap fun e inFile => Contract.reader_tree (fits.contracts file mem e inFile)
  · simp
  · simp

theorem SourceFile.reader_yields : reader.Yields fun depth f => f.Fits (depth - 1) := by
  apply Reader.record_yields (P := fun depth (f : SourceFile) => f.Fits depth)
  apply Fields.Yields.seq _ (Fields.yields_defaulted Reader.option_json_yields (by simp))
  apply Fields.Yields.seq _ (Fields.yields_defaulted Reader.option_json_yields (by simp))
  apply Fields.Yields.map (Fields.yields_required (Reader.yields_true _))
  intro depth id _ ast astFits legacyAst legacyFits
  exact ⟨astFits, legacyFits⟩

theorem Contract.reader_yields : reader.Yields fun depth c => c.Fits (depth - 2) := by
  apply Reader.record_yields (P := fun depth (c : Contract) => c.Fits (depth - 1))
  apply Fields.Yields.seq _ (Fields.yields_optional (Reader.yields_true _))
  apply Fields.Yields.map (Fields.yields_defaulted
    (Reader.json_yields.list.option.getD fun _ => List.forall_mem_nil _)
    fun _ => List.forall_mem_nil _)
  intro depth abi fits code _
  exact fits

theorem Response.reader_yields : reader.Yields fun depth r => r.Fits (depth - 5) := by
  apply Reader.record_yields (P := fun depth (r : Response) => r.Fits (depth - 4))
  apply Fields.Yields.seq _ (Fields.yields_defaulted Contract.reader_yields.map.map
    fun _ => List.forall_mem_nil _)
  apply Fields.Yields.seq _ (Fields.yields_defaulted SourceFile.reader_yields.map
    fun _ => List.forall_mem_nil _)
  apply Fields.Yields.map (Fields.yields_defaulted (Reader.yields_true _) fun _ => trivial)
  intro depth errors _ sources sourcesFit contracts contractsFit
  refine ⟨?_, contractsFit⟩
  intro e mem
  exact (sourcesFit e mem).mono (by omega)

namespace Response

theorem fits_of_text {text : String} {r : Response}
    (integers : IntegerText text) (accepted : reader.runString text = .ok r) :
    r.Fits 122 := by
  exact reader_yields nestingLimit _ r integers.integers (Reader.read_of_runString accepted)

/-- Whatever form the text had, its response is read back from what the response is written as. -/
theorem response_read_back {text : String} {r : Response}
    (integers : IntegerText text) (accepted : reader.runString text = .ok r) :
    reader.runString r.json.text = .ok r := by
  rw [Reader.runString_text]
  exact reader_tree (fits_of_text integers accepted)

def mixedText : String :=
  "\x7b\"errors\":[\x7b\"severity\":\"info\",\"message\":\"m\",\"errorCode\":\"+7\",\"x\":[1]\x7d]," ++
  "\"contracts\":\x7b\"b\":\x7b\"C\":\x7b\"evm\":[\x7b\"linkReferences\":null\x7d]\x7d," ++
  "\"D\":[[0]]\x7d\x7d,\"sources\":\x7b\"b\":[3,null,\x7b\"n\":-1\x7d]\x7d\x7d"

def mixed : Response where
  errors := [⟨none, "", "", .info, some 7, "m", none⟩]
  sources := .singleton "b" ⟨3, none, some (.object [("n", .ofInt32 (-1))])⟩
  contracts := .singleton "b" (.ofList
    [("C", ⟨[], some ⟨some ⟨"", none, .empty⟩, none⟩⟩), ("D", ⟨[.ofUInt32 0], none⟩)])

theorem response_read_back_mixed : IntegerText mixedText ∧
    reader.runString mixedText = .ok mixed ∧ reader.runString mixed.json.text = .ok mixed := by
  have integers : IntegerText mixedText := by decide +kernel
  have accepted : reader.runString mixedText = .ok mixed := by decide +kernel
  exact ⟨integers, accepted, response_read_back integers accepted⟩

end Response
end ContractBuild
