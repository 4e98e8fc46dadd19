import ContractBuild.Artifact.Assembly
import ContractBuild.Proofs.Outcome
import ContractBuild.Proofs.SortedMap

/-!
# All artifacts or none

A response is assembled if every piece of code in it can be linked, also code of a contract that a
later path hides; else the first piece that cannot be linked gives the failure. Pieces are ordered
by path, then by contract name, and the creation code of a contract comes before its deployed code.
Of the contracts with one name the one of the greatest path becomes the artifact.
-/

namespace ContractBuild
open Std

namespace Declaration

def Before (d e : Declaration) : Prop :=
  compare d.path e.path = .lt ∨ d.path = e.path ∧ compare d.name e.name = .lt

variable {response : Response} {d e : Declaration}

theorem Before.asymm (before : d.Before e) : ¬ e.Before d := by
  rintro (path' | ⟨eq', name'⟩) <;> rcases before with path | ⟨eq, name⟩
  · exact OrientedCmp.not_lt_of_lt path path'
  · rw [eq, compare_self] at path'
    cases path'
  · rw [eq', compare_self] at path
    cases path
  · exact OrientedCmp.not_lt_of_lt name name'

theorem before_or_eq_or_before (d e : Declaration) :
    d.Before e ∨ (d.path = e.path ∧ d.name = e.name) ∨ e.Before d := by
  cases path : compare d.path e.path with
  | lt => exact .inl (.inl path)
  | gt => exact .inr (.inr (.inl (OrientedCmp.gt_iff_lt.1 path)))
  | eq =>
    have same := Std.compare_eq_iff_eq.1 path
    cases name : compare d.name e.name with
    | lt => exact .inl (.inr ⟨same, name⟩)
    | gt => exact .inr (.inr (.inr ⟨same.symm, OrientedCmp.gt_iff_lt.1 name⟩))
    | eq => exact .inr (.inl ⟨same, Std.compare_eq_iff_eq.1 name⟩)

theorem mem_all : d ∈ all response ↔
    response.contract? d.path d.name = some d.contract ∧
      d.file = response.sources.find? d.path := by
  simp only [all, List.mem_flatMap, List.mem_map, Response.contract?, Option.bind_eq_bind,
    Option.bind_eq_some_iff, SortedMap.find?_eq_some_iff]
  constructor
  · rintro ⟨⟨path, contracts⟩, mem, ⟨name, contract⟩, mem', rfl⟩
    exact ⟨⟨contracts, mem, mem'⟩, rfl⟩
  · rintro ⟨⟨contracts, mem, mem'⟩, file⟩
    refine ⟨(d.path, contracts), mem, (d.name, d.contract), mem', ?_⟩
    rw [← file]

theorem pairwise_all (response : Response) : (all response).Pairwise Before := by
  rw [all, List.pairwise_flatMap]
  refine ⟨fun file _ => ?_, response.contracts.increasing.imp fun lt => ?_⟩
  · exact List.pairwise_map.2 (file.2.increasing.imp fun lt => .inr ⟨rfl, lt⟩)
  · intro d mem e mem'
    obtain ⟨_, -, rfl⟩ := List.mem_map.1 mem
    obtain ⟨_, -, rfl⟩ := List.mem_map.1 mem'
    exact .inl lt

variable {sources : CanonicalSources} {compiler : CompilerInfo}

def Links (code : Option Bytecode) (text : String) : Prop :=
  match code with
  | none => text = "0x"
  | some code => Link.placeholders ("0x" ++ code.object) code.linkReferences = .ok text

theorem linked_eq_ok_iff {code : Option Bytecode} {text : String} :
    linked code = .ok text ↔ Links code text := by
  cases code with
  | none => simp [linked, Links, eq_comm]
  | some code => rfl

/-- The artifact holds what one contract and the file of its path give. -/
structure Yields (response : Response) (sources : CanonicalSources) (compiler : CompilerInfo)
    (path name : String) (contract : Contract) (a : Artifact) : Prop where
  contractName : a.contractName = name
  sourcePath : a.sourcePath = (sources.path? path).getD path
  source : a.source = (sources.text? path).getD ""
  bytecode : Links contract.creation? a.bytecode
  deployedBytecode : Links contract.deployed? a.deployedBytecode
  unlinkedBinary : a.unlinkedBinary = a.bytecode
  sourceMap : a.sourceMap = contract.creation? >>= Bytecode.sourceMap
  deployedSourceMap : a.deployedSourceMap = contract.deployed? >>= Bytecode.sourceMap
  legacyAst : a.legacyAst = response.sources.find? path >>= SourceFile.legacyAst
  ast : a.ast = response.sources.find? path >>= SourceFile.ast
  abi : a.abi = DeclarationOrder.order name (response.sources.find? path >>= SourceFile.legacyAst)
    (response.sources.find? path >>= SourceFile.ast) contract.abi
  compiler : a.compiler = compiler

theorem artifact_eq_ok {a : Artifact} (made : d.artifact sources compiler = .ok a)
    (file : d.file = response.sources.find? d.path) :
    Yields response sources compiler d.path d.name d.contract a := by
  unfold artifact at made
  rw [file] at made
  cases creation : linked d.contract.creation? with
  | error f => simp [creation, Bind.bind, Except.bind] at made
  | ok bytecode =>
    cases deployed : linked d.contract.deployed? with
    | error f => simp [creation, deployed, Bind.bind, Except.bind] at made
    | ok deployedBytecode =>
      simp only [creation, deployed, Bind.bind, Except.bind, Pure.pure, Except.pure,
        Except.ok.injEq] at made
      subst made
      exact ⟨rfl, rfl, rfl, linked_eq_ok_iff.1 creation, linked_eq_ok_iff.1 deployed, rfl, rfl, rfl,
        rfl, rfl, rfl, rfl⟩

theorem artifact_eq_error_iff {f : Failure} :
    d.artifact sources compiler = .error f ↔ linked d.contract.creation? = .error f ∨
      (∃ text, linked d.contract.creation? = .ok text) ∧
        linked d.contract.deployed? = .error f := by
  unfold artifact
  cases linked d.contract.creation? with
  | error f' => simp [Bind.bind, Except.bind]
  | ok bytecode =>
    cases linked d.contract.deployed? <;> simp [Bind.bind, Except.bind, Pure.pure, Except.pure]

end Declaration

def Bytecode.Linkable (code : Bytecode) : Prop :=
  ∃ text, Link.placeholders ("0x" ++ code.object) code.linkReferences = .ok text

inductive Part
  | creation
  | deployed
  deriving DecidableEq, Repr

def Part.code? : Part → Contract → Option Bytecode
  | creation, c => c.creation?
  | deployed, c => c.deployed?

structure Place where
  path : String
  name : String
  part : Part

namespace Place

def code? (response : Response) (p : Place) : Option Bytecode :=
  response.contract? p.path p.name >>= p.part.code?

inductive Before : Place → Place → Prop
  | path {p q : Place} (lt : compare p.path q.path = .lt) : Before p q
  | name {p q : Place} (same : p.path = q.path) (lt : compare p.name q.name = .lt) : Before p q
  | part (path name : String) : Before ⟨path, name, .creation⟩ ⟨path, name, .deployed⟩

variable {response : Response} {sources : CanonicalSources} {compiler : CompilerInfo}
  {d : Declaration}

def linked (response : Response) (p : Place) : Except Failure String :=
  Declaration.linked (p.code? response)

theorem linked_of_code? {p : Place} {code : Bytecode} (found : p.code? response = some code) :
    p.linked response = Link.placeholders ("0x" ++ code.object) code.linkReferences := by
  rw [linked, found]
  rfl

theorem exists_linked_iff {p : Place} : (∃ text, p.linked response = .ok text) ↔
    ∀ code, p.code? response = some code → code.Linkable := by
  cases found : p.code? response with
  | none => simp [linked, found, Declaration.linked]
  | some code => simp [linked_of_code? found, Bytecode.Linkable]

theorem linked_of_mem (mem : d ∈ Declaration.all response) (part : Part) :
    linked response ⟨d.path, d.name, part⟩ = Declaration.linked (part.code? d.contract) := by
  rw [linked, code?, (Declaration.mem_all.1 mem).1]
  rfl

theorem exists_declaration {p : Place} {code : Bytecode} (found : p.code? response = some code) :
    ∃ d ∈ Declaration.all response, d.path = p.path ∧ d.name = p.name := by
  obtain ⟨contract, declared, -⟩ := Option.bind_eq_some_iff.1 found
  exact ⟨⟨p.path, p.name, contract, response.sources.find? p.path⟩,
    Declaration.mem_all.2 ⟨declared, rfl⟩, rfl, rfl⟩

theorem exists_artifact_iff (mem : d ∈ Declaration.all response) :
    (∃ a, d.artifact sources compiler = .ok a) ↔
      ∀ part, ∃ text, linked response ⟨d.path, d.name, part⟩ = .ok text := by
  have failure (f : Failure) : d.artifact sources compiler = .error f ↔ _ :=
    Declaration.artifact_eq_error_iff
  have creation := linked_of_mem mem .creation
  have deployed := linked_of_mem mem .deployed
  simp only [Part.code?] at creation deployed
  constructor
  · intro ⟨a, made⟩ part
    rw [made] at failure
    cases first : Declaration.linked d.contract.creation? with
    | error f => exact absurd ((failure f).2 (.inl first)) nofun
    | ok text =>
      cases second : Declaration.linked d.contract.deployed? with
      | error f => exact absurd ((failure f).2 (.inr ⟨⟨text, first⟩, second⟩)) nofun
      | ok text' =>
        cases part with
        | creation => exact ⟨text, creation.trans first⟩
        | deployed => exact ⟨text', deployed.trans second⟩
  · intro fine
    obtain ⟨text, first⟩ := fine .creation
    obtain ⟨text', second⟩ := fine .deployed
    rw [creation] at first
    rw [deployed] at second
    cases made : d.artifact sources compiler with
    | ok a => exact ⟨a, rfl⟩
    | error f =>
      rcases (failure f).1 made with failed | ⟨-, failed⟩
      · rw [first] at failed
        cases failed
      · rw [second] at failed
        cases failed

theorem linked_of_earlier {before after : List Declaration}
    (split : Declaration.all response = before ++ d :: after)
    (fine : ∀ e ∈ before, ∃ a, e.artifact sources compiler = .ok a) {q : Place}
    (earlier : compare q.path d.path = .lt ∨ q.path = d.path ∧ compare q.name d.name = .lt) :
    ∃ text, q.linked response = .ok text := by
  cases found : q.code? response with
  | none => exact ⟨"0x", by rw [linked, found]; rfl⟩
  | some code =>
    obtain ⟨e, mem, path, name⟩ := exists_declaration found
    have first : e.Before d := by
      rw [Declaration.Before, path, name]
      exact earlier
    have inFront : e ∈ before := by
      have ordered := Declaration.pairwise_all response
      rw [split] at mem ordered
      rcases List.mem_append.1 mem with mem | mem
      · exact mem
      rcases List.mem_cons.1 mem with rfl | mem
      · exact absurd first first.asymm
      · exact absurd ((List.pairwise_cons.1 (List.pairwise_append.1 ordered).2.1).1 e mem)
          first.asymm
    have both := (exists_artifact_iff mem).1 (fine e inFront) q.part
    rwa [path, name] at both

theorem before_of_declaration {p : Place} (part : Part)
    (earlier : compare d.path p.path = .lt ∨ d.path = p.path ∧ compare d.name p.name = .lt) :
    Before ⟨d.path, d.name, part⟩ p := by
  rcases earlier with path | ⟨same, name⟩
  · exact .path path
  · exact .name same name

end Place

theorem mapM_artifact_eq_error_iff {response : Response} {sources : CanonicalSources}
    {compiler : CompilerInfo} {f : Failure} :
    (Declaration.all response).mapM (fun d => d.artifact sources compiler) = .error f ↔
      ∃ p : Place, p.linked response = .error f ∧
        ∀ q : Place, q.Before p → ∃ text, q.linked response = .ok text := by
  rw [mapM_eq_error_iff]
  constructor
  · intro ⟨before, d, after, split, fine, failed⟩
    have mem : d ∈ Declaration.all response := by simp [split]
    rcases Declaration.artifact_eq_error_iff.1 failed with creation | ⟨⟨text, creation⟩, deployed⟩
    · refine ⟨⟨d.path, d.name, .creation⟩, (Place.linked_of_mem mem _).trans creation, ?_⟩
      intro q earlier
      cases earlier with
      | path lt => exact Place.linked_of_earlier split fine (.inl lt)
      | name same lt => exact Place.linked_of_earlier split fine (.inr ⟨same, lt⟩)
    · refine ⟨⟨d.path, d.name, .deployed⟩, (Place.linked_of_mem mem _).trans deployed, ?_⟩
      intro q earlier
      cases earlier with
      | path lt => exact Place.linked_of_earlier split fine (.inl lt)
      | name same lt => exact Place.linked_of_earlier split fine (.inr ⟨same, lt⟩)
      | part => exact ⟨text, (Place.linked_of_mem mem _).trans creation⟩
  · intro ⟨⟨path, name, part⟩, failed, earlier⟩
    cases found : Place.code? response ⟨path, name, part⟩ with
    | none =>
      rw [Place.linked, found] at failed
      cases failed
    | some code =>
      obtain ⟨d, mem, rfl, rfl⟩ := Place.exists_declaration found
      obtain ⟨before, after, split⟩ := List.append_of_mem mem
      refine ⟨before, d, after, split, fun e inFront => ?_, ?_⟩
      · have ordered := Declaration.pairwise_all response
        rw [split] at ordered
        have first : e.Before d :=
          (List.pairwise_append.1 ordered).2.2 e inFront d List.mem_cons_self
        have mem' : e ∈ Declaration.all response := by simp [split, inFront]
        exact (Place.exists_artifact_iff mem').2 fun part =>
          earlier _ (Place.before_of_declaration part first)
      · rw [Place.linked_of_mem mem] at failed
        cases part with
        | creation => exact Declaration.artifact_eq_error_iff.2 (.inl failed)
        | deployed =>
          have creation := earlier _ (.part d.path d.name)
          rw [Place.linked_of_mem mem] at creation
          exact Declaration.artifact_eq_error_iff.2 (.inr ⟨creation, failed⟩)

section

variable {response : Response} {sources : CanonicalSources} {compiler : CompilerInfo}
  {c : CompiledContracts} {artifacts : List Artifact} {d e : Declaration} {a : Artifact}

theorem assemble_eq_ok (made : assemble response sources compiler = .ok c) :
    ∃ artifacts, (Declaration.all response).mapM (fun d => d.artifact sources compiler) =
        .ok artifacts ∧
      c.contracts = .ofList (artifacts.map fun a => (a.contractName, a)) ∧
      c.files = .ofList (response.sources.entries.map fun source =>
        (source.2.id, (sources.path? source.1).getD source.1)) := by
  unfold assemble at made
  cases all : (Declaration.all response).mapM fun d => d.artifact sources compiler with
  | error f => simp [all, Bind.bind, Except.bind] at made
  | ok artifacts =>
    simp only [all, Bind.bind, Except.bind, Pure.pure, Except.pure, Except.ok.injEq] at made
    subst made
    exact ⟨artifacts, rfl, rfl, rfl⟩

theorem assemble_eq_error_iff {f : Failure} : assemble response sources compiler = .error f ↔
    (Declaration.all response).mapM (fun d => d.artifact sources compiler) = .error f := by
  unfold assemble
  cases (Declaration.all response).mapM fun d => d.artifact sources compiler <;>
    simp [Bind.bind, Except.bind, Pure.pure, Except.pure]

def MadeOf (response : Response) (sources : CanonicalSources) (compiler : CompilerInfo)
    (artifacts : List Artifact) : Prop :=
  List.Forall₂ (fun d a => d.artifact sources compiler = .ok a) (Declaration.all response) artifacts

def beside (response : Response) (artifacts : List Artifact) : List (Declaration × Artifact) :=
  (Declaration.all response).zip artifacts

namespace MadeOf

variable (made : MadeOf response sources compiler artifacts)
include made

theorem map_fst : (beside response artifacts).map Prod.fst = Declaration.all response :=
  List.map_fst_zip (Nat.le_of_eq (List.forall₂_iff_zip.1 made).1)

theorem map_snd : (beside response artifacts).map Prod.snd = artifacts :=
  List.map_snd_zip (Nat.le_of_eq (List.forall₂_iff_zip.1 made).1.symm)

theorem mem_all (mem : (d, a) ∈ beside response artifacts) : d ∈ Declaration.all response :=
  made.map_fst ▸ List.mem_map_of_mem mem

theorem exists_mem (mem : d ∈ Declaration.all response) :
    ∃ a, (d, a) ∈ beside response artifacts := by
  rw [← made.map_fst] at mem
  obtain ⟨⟨d, a⟩, mem', rfl⟩ := List.mem_map.1 mem
  exact ⟨a, mem'⟩

theorem artifact (mem : (d, a) ∈ beside response artifacts) :
    d.artifact sources compiler = .ok a :=
  (List.forall₂_iff_zip.1 made).2 mem

theorem yields (mem : (d, a) ∈ beside response artifacts) :
    Declaration.Yields response sources compiler d.path d.name d.contract a :=
  Declaration.artifact_eq_ok (made.artifact mem) (Declaration.mem_all.1 (made.mem_all mem)).2

theorem pairwise : (beside response artifacts).Pairwise fun x y => x.1.Before y.1 := by
  rw [← List.pairwise_map (f := Prod.fst), made.map_fst]
  exact Declaration.pairwise_all response

theorem names : artifacts.map Artifact.contractName =
    (Declaration.all response).map Declaration.name := by
  conv_lhs => rw [← made.map_snd]
  rw [← made.map_fst, List.map_map, List.map_map]
  exact List.map_congr_left fun x mem => (made.yields mem).contractName

theorem entries : artifacts.map (fun a => (a.contractName, a)) =
    (beside response artifacts).map fun x => (x.2.contractName, x.2) := by
  conv_lhs => rw [← made.map_snd]
  exact List.map_map

theorem find?_of_greatest (mem : d ∈ Declaration.all response)
    (greatest : ∀ e ∈ Declaration.all response, e.name = d.name →
      compare e.path d.path ≠ .gt) :
    ∃ a, (SortedMap.ofList (artifacts.map fun a => (a.contractName, a))).find? d.name = some a ∧
      Declaration.Yields response sources compiler d.path d.name d.contract a := by
  obtain ⟨a, mem'⟩ := made.exists_mem mem
  refine ⟨a, ?_, made.yields mem'⟩
  rw [made.entries, SortedMap.find?_ofList_map_eq_some_iff made.pairwise fun _ _ before => before.asymm]
  refine ⟨(d, a), mem', (made.yields mem').contractName, rfl, fun ⟨e, b⟩ other name => ?_⟩
  rw [(made.yields other).contractName] at name
  have inAll := made.mem_all other
  rcases Declaration.before_or_eq_or_before e d with before | ⟨path, -⟩ | behind
  · exact .inr before
  · -- One path declares a name once, so this is the same declaration.
    have same : e = d := by
      obtain ⟨declared, file⟩ := Declaration.mem_all.1 inAll
      obtain ⟨declared', file'⟩ := Declaration.mem_all.1 mem
      rw [path, name, declared'] at declared
      rw [path, ← file'] at file
      cases d
      cases e
      simp_all
    subst same
    have eq := made.artifact other
    rw [made.artifact mem'] at eq
    exact .inl (by rw [Except.ok.inj eq])
  · rcases behind with gt | ⟨-, gt⟩
    · exact absurd (OrientedCmp.gt_iff_lt.2 gt) (greatest e inAll name)
    · rw [name, compare_self] at gt
      cases gt

end MadeOf

theorem find?_files {id : UInt32} {original : String} :
    (SortedMap.ofList (response.sources.entries.map fun source =>
        (source.2.id, (sources.path? source.1).getD source.1))).find? id = some original ↔
      ∃ path file, response.sources.find? path = some file ∧ file.id = id ∧
        original = (sources.path? path).getD path ∧
        ∀ path' file', response.sources.find? path' = some file' → file'.id = id →
          compare path' path ≠ .gt := by
  rw [SortedMap.find?_ofList_map_eq_some_iff response.sources.increasing
    fun _ _ lt => OrientedCmp.not_lt_of_lt lt]
  simp only [SortedMap.find?_eq_some_iff]
  constructor
  · rintro ⟨⟨path, file⟩, mem, rfl, rfl, greatest⟩
    refine ⟨path, file, mem, rfl, rfl, fun path' file' mem' same gt => ?_⟩
    rcases greatest (path', file') mem' same with eq | lt
    · rw [(Prod.mk.inj eq).1, compare_self] at gt
      cases gt
    · rw [gt] at lt
      cases lt
  · rintro ⟨path, file, mem, rfl, rfl, greatest⟩
    refine ⟨(path, file), mem, rfl, rfl, fun ⟨path', file'⟩ mem' same => ?_⟩
    have notAbove := greatest path' file' mem' same
    cases order : compare path' path with
    | lt => exact .inr rfl
    | gt => exact absurd order notAbove
    | eq =>
      obtain rfl := Std.compare_eq_iff_eq.1 order
      rw [← SortedMap.find?_eq_some_iff] at mem mem'
      rw [mem] at mem'
      cases mem'
      exact .inl rfl

/-- The artifacts and file numbers of a response: of what has one name or one number, that of the
greatest path counts. -/
structure Assembled (response : Response) (sources : CanonicalSources) (compiler : CompilerInfo)
    (c : CompiledContracts) : Prop where
  names : ∀ name, c.contracts.contains name = true ↔
    ∃ path contract, response.contract? path name = some contract
  winners : ∀ path name contract, response.contract? path name = some contract →
    (∀ path' contract', response.contract? path' name = some contract' →
      compare path' path ≠ .gt) →
    ∃ a, c.contracts.find? name = some a ∧
      Declaration.Yields response sources compiler path name contract a
  files : ∀ id original, c.files.find? id = some original ↔
    ∃ path file, response.sources.find? path = some file ∧ file.id = id ∧
      original = (sources.path? path).getD path ∧
      ∀ path' file', response.sources.find? path' = some file' → file'.id = id →
        compare path' path ≠ .gt

theorem assembled_of_ok (ok : assemble response sources compiler = .ok c) :
    Assembled response sources compiler c := by
  obtain ⟨artifacts, all, contracts, files⟩ := assemble_eq_ok ok
  have made : MadeOf response sources compiler artifacts := mapM_eq_ok_iff.1 all
  refine ⟨fun name => ?_, fun path name contract declared greatest => ?_, fun _ _ => ?_⟩
  · rw [contracts, SortedMap.contains_ofList_iff, List.map_map]
    change name ∈ artifacts.map Artifact.contractName ↔ _
    rw [made.names, List.mem_map]
    constructor
    · rintro ⟨d, mem, rfl⟩
      exact ⟨d.path, d.contract, (Declaration.mem_all.1 mem).1⟩
    · intro ⟨path, contract, declared⟩
      exact ⟨⟨path, name, contract, response.sources.find? path⟩,
        Declaration.mem_all.2 ⟨declared, rfl⟩, rfl⟩
  · have mem : ⟨path, name, contract, response.sources.find? path⟩ ∈ Declaration.all response :=
      Declaration.mem_all.2 ⟨declared, rfl⟩
    rw [contracts]
    refine made.find?_of_greatest mem fun e other same => ?_
    have declared' := (Declaration.mem_all.1 other).1
    rw [same] at declared'
    exact greatest e.path e.contract declared'
  · rw [files]
    exact find?_files

end

theorem assemble_all_or_first_failure (response : Response) (sources : CanonicalSources)
    (compiler : CompilerInfo) :
    ((∃ c, assemble response sources compiler = .ok c) ↔
      ∀ (p : Place) code, p.code? response = some code → code.Linkable) ∧
    (∀ f, assemble response sources compiler = .error f ↔
      ∃ (p : Place) (code : Bytecode), p.code? response = some code ∧
        Link.placeholders ("0x" ++ code.object) code.linkReferences = .error f ∧
        ∀ q : Place, q.Before p → ∀ code', q.code? response = some code' → code'.Linkable) ∧
    (∀ c, assemble response sources compiler = .ok c → Assembled response sources compiler c) := by
  have failure (f : Failure) : assemble response sources compiler = .error f ↔
      ∃ (p : Place) (code : Bytecode), p.code? response = some code ∧
        Link.placeholders ("0x" ++ code.object) code.linkReferences = .error f ∧
        ∀ q : Place, q.Before p → ∀ code', q.code? response = some code' → code'.Linkable := by
    simp only [assemble_eq_error_iff, mapM_artifact_eq_error_iff, Place.exists_linked_iff]
    constructor
    · intro ⟨p, failed, earlier⟩
      cases found : p.code? response with
      | none =>
        rw [Place.linked, found] at failed
        cases failed
      | some code => exact ⟨p, code, found, Place.linked_of_code? found ▸ failed, earlier⟩
    · intro ⟨p, code, found, failed, earlier⟩
      exact ⟨p, (Place.linked_of_code? found).trans failed, earlier⟩
  refine ⟨⟨fun ⟨c, made⟩ p code found => ?_, fun fine => ?_⟩, failure, fun c made => ?_⟩
  · obtain ⟨artifacts, all, -, -⟩ := assemble_eq_ok made
    have made : MadeOf response sources compiler artifacts := mapM_eq_ok_iff.1 all
    obtain ⟨d, mem, path, name⟩ := Place.exists_declaration found
    obtain ⟨a, mem'⟩ := made.exists_mem mem
    have both := (Place.exists_artifact_iff mem).1 ⟨a, made.artifact mem'⟩ p.part
    rw [path, name] at both
    exact Place.exists_linked_iff.1 both code found
  · cases made : assemble response sources compiler with
    | ok c => exact ⟨c, rfl⟩
    | error f =>
      obtain ⟨p, code, found, failed, -⟩ := (failure f).1 made
      obtain ⟨text, ok⟩ := fine p code found
      rw [failed] at ok
      cases ok
  · exact assembled_of_ok made

def twoTokens : Response where
  errors := []
  sources := .ofList [("a.sol", ⟨7, none, none⟩), ("b.sol", ⟨7, none, some (.object [])⟩)]
  contracts := .ofList
    [("a.sol", .singleton "Token" ⟨[], some ⟨some ⟨"6000", none, .empty⟩, none⟩⟩),
     ("b.sol", .singleton "Token" ⟨[], some ⟨some ⟨"6080", some "1:2:3", .empty⟩, none⟩⟩)]

theorem assemble_all_or_first_failure_twoTokens :
    ∃ c, assemble twoTokens .empty (.solc "0.5.4") = .ok c ∧
      (∃ a, c.contracts.find? "Token" = some a ∧
        Declaration.Yields twoTokens .empty (.solc "0.5.4") "b.sol" "Token"
          ⟨[], some ⟨some ⟨"6080", some "1:2:3", .empty⟩, none⟩⟩ a) ∧
      c.files.find? 7 = some "b.sol" := by
  obtain ⟨-, -, assembled⟩ := assemble_all_or_first_failure twoTokens .empty (.solc "0.5.4")
  have made : ∃ c, assemble twoTokens .empty (.solc "0.5.4") = .ok c := ⟨_, rfl⟩
  obtain ⟨c, made⟩ := made
  obtain ⟨-, winners, files⟩ := assembled c made
  have declared : ∀ path contract, twoTokens.contract? path "Token" = some contract →
      path = "a.sol" ∨ path = "b.sol" := by
    intro path contract declared
    have mem : ⟨path, "Token", contract, twoTokens.sources.find? path⟩ ∈
        Declaration.all twoTokens := Declaration.mem_all.2 ⟨declared, rfl⟩
    rcases List.mem_cons.1 mem with eq | mem
    · exact .inl (congrArg Declaration.path eq)
    · exact .inr (congrArg Declaration.path (List.mem_singleton.1 mem))
  have numbered : ∀ path file, twoTokens.sources.find? path = some file →
      path = "a.sol" ∨ path = "b.sol" := by
    intro path file found
    rcases List.mem_cons.1 ((SortedMap.find?_eq_some_iff _).1 found) with eq | mem
    · exact .inl (congrArg Prod.fst eq)
    · exact .inr (congrArg Prod.fst (List.mem_singleton.1 mem))
  refine ⟨c, made, winners "b.sol" "Token" _ (by decide +kernel) fun path _ found => ?_,
    (files 7 "b.sol").2 ⟨"b.sol", _, rfl, rfl, rfl, fun path _ found _ => ?_⟩⟩
  · rcases declared path _ found with rfl | rfl <;> decide
  · rcases numbered path _ found with rfl | rfl <;> decide

end ContractBuild
