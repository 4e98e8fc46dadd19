import ContractBuild.Proofs.Build.Course
import ContractBuild.Proofs.Diagnostics.Rejection

/-!
# Where an artifact comes from

Every artifact of a build goes back to the path that the caller gave and carries the text of this
path; a contract of a file that nobody gave keeps the name of the file and has no text. The number
of a file goes back in the same way, except that of files with one number the greatest counts.
-/

namespace ContractBuild

variable {σ : Type}

inductive Traced (sources : SourceSet) (name : String) : String → String → Prop
  | given {path text : String} (original : IsOriginal sources name path)
      (found : sources.find? path = some text) : Traced sources name path text
  | foreign (unknown : ∀ path, sources.contains path = true → canonicalize path ≠ name) :
      Traced sources name name ""

theorem traced_iff {sources : SourceSet} {name path text : String} :
    Traced sources name path text ↔
      path = ((CanonicalSources.ofSources sources).path? name).getD name ∧
      text = ((CanonicalSources.ofSources sources).text? name).getD "" := by
  constructor
  · intro traced
    cases traced with
    | given original found =>
      rw [CanonicalSources.path?_ofSources_eq_some_iff.2 original,
        CanonicalSources.text?_of_isOriginal original, found]
      exact ⟨rfl, rfl⟩
    | foreign unknown =>
      rw [CanonicalSources.path?_eq_none_iff.2 unknown, CanonicalSources.text?_eq_none_iff.2 unknown]
      exact ⟨rfl, rfl⟩
  · rintro ⟨rfl, rfl⟩
    cases back : (CanonicalSources.ofSources sources).path? name with
    | some path =>
      have original := CanonicalSources.path?_ofSources_eq_some_iff.1 back
      obtain ⟨text, found⟩ := Option.isSome_iff_exists.1 original.given
      rw [CanonicalSources.text?_of_isOriginal original, found]
      exact .given original found
    | none =>
      have unknown := CanonicalSources.path?_eq_none_iff.1 back
      rw [CanonicalSources.text?_eq_none_iff.2 unknown]
      exact .foreign unknown

theorem Declaration.Before.path_ne_gt {d e : Declaration} (before : d.Before e) :
    compare d.path e.path ≠ .gt := by
  rcases before with lt | ⟨same, -⟩
  · rw [lt]
    nofun
  · rw [same, Std.compare_self]
    nofun

/-- The file `path` has this number in a response, and no greater one has it too. -/
structure Response.Numbers (response : Response) (id : UInt32) (path : String) : Prop where
  reported : ∃ file, response.sources.find? path = some file ∧ file.id = id
  greatest : ∀ path' file', response.sources.find? path' = some file' → file'.id = id →
    compare path' path ≠ .gt

structure Response.Declares (response : Response) (path name : String) : Prop where
  declared : ∃ contract, response.contract? path name = some contract
  greatest : ∀ path' contract', response.contract? path' name = some contract' →
    compare path' path ≠ .gt

section

variable {response : Response} {sources : CanonicalSources} {compiler : CompilerInfo}
  {built : CompiledContracts} {name : String} {a : Artifact}

theorem exists_declares_of_find? (made : assemble response sources compiler = .ok built)
    (found : built.contracts.find? name = some a) : ∃ path contract,
      response.Declares path name ∧
        Declaration.Yields response sources compiler path name contract a := by
  obtain ⟨artifacts, all, contracts, -⟩ := assemble_eq_ok made
  have made : MadeOf response sources compiler artifacts := mapM_eq_ok_iff.1 all
  rw [contracts, made.entries, SortedMap.find?_ofList_map_eq_some_iff made.pairwise
    fun _ _ before => before.asymm] at found
  obtain ⟨⟨d, a⟩, mem, rfl, rfl, greatest⟩ := found
  have yields := made.yields mem
  rw [yields.contractName]
  refine ⟨d.path, d.contract, ⟨⟨d.contract, (Declaration.mem_all.1 (made.mem_all mem)).1⟩,
    fun path' contract' declared => ?_⟩, yields⟩
  obtain ⟨b, mem'⟩ := made.exists_mem
    (d := ⟨path', d.name, contract', response.sources.find? path'⟩)
    (Declaration.mem_all.2 ⟨declared, rfl⟩)
  rcases greatest _ mem' ((made.yields mem').contractName.trans yields.contractName.symm)
    with same | before
  · have same : path' = d.path := congrArg (fun x => x.1.path) same
    rw [same, Std.compare_self]
    nofun
  · exact before.path_ne_gt

end

structure Provenance (sources : SourceSet) (response : Response) (built : CompiledContracts) :
    Prop where
  artifacts : ∀ name a, built.contracts.find? name = some a → ∃ path,
    response.Declares path name ∧ Traced sources path a.sourcePath a.source ∧
      ∀ id, response.Numbers id path → built.files.find? id = some a.sourcePath
  files : ∀ id original, built.files.find? id = some original ↔
    ∃ path text, response.Numbers id path ∧ Traced sources path original text

theorem provenance_of_assembled {sources : SourceSet} {response : Response}
    {compiler : CompilerInfo} {built : CompiledContracts}
    (made : assemble response (.ofSources sources) compiler = .ok built) :
    Provenance sources response built := by
  have files (id : UInt32) (original : String) : built.files.find? id = some original ↔
      ∃ path text, response.Numbers id path ∧ Traced sources path original text := by
    rw [(assembled_of_ok made).files]
    constructor
    · rintro ⟨path, file, found, same, rfl, greatest⟩
      exact ⟨path, _, ⟨⟨file, found, same⟩, greatest⟩, traced_iff.2 ⟨rfl, rfl⟩⟩
    · rintro ⟨path, text, ⟨⟨file, found, same⟩, greatest⟩, traced⟩
      exact ⟨path, file, found, same, (traced_iff.1 traced).1, greatest⟩
  refine ⟨fun name a found => ?_, files⟩
  obtain ⟨path, contract, declares, yields⟩ := exists_declares_of_find? made found
  have traced : Traced sources path a.sourcePath a.source :=
    traced_iff.2 ⟨yields.sourcePath, yields.source⟩
  exact ⟨path, declares, traced, fun id numbers => (files id _).2 ⟨path, _, numbers, traced⟩⟩

namespace Build

variable {config : Config} {options : BuildOptions} {resolver : Resolver σ} {sources : SourceSet}
  {w : σ} {built : CompiledContracts}

def Responds (config : Config) (resolver : Resolver σ) (sources : SourceSet) (w : σ)
    (response : Response) : Prop :=
  ∃ version c said w₁ contacts said' w₂, config.compilerVersion = .ok version ∧
    (resolver version).run w = ⟨.ok c, said, w₁⟩ ∧
    Answers c (Request.ofSources (.ofSources sources) config).text w₁ (.ok response) contacts
      said' w₂

theorem provenance_of_compile
    (ok : ((compile config options resolver sources).run w).result = .ok built) :
    sources = .empty ∧ built = .empty ∨
      ∃ response, Responds config resolver sources w response ∧
        Provenance sources response built := by
  obtain ⟨o, contacts, course⟩ := exists_course config options resolver sources w
  rw [course.run] at ok
  cases course with
  | empty none => exact .inl ⟨none, (Except.ok.inj ok).symm⟩
  | unsupported | unresolved | unanswered => cases ok
  | answered filled supported resolved answers judges =>
    refine .inr ⟨_, ⟨_, _, _, _, _, _, _, supported, resolved, answers⟩, ?_⟩
    cases judges with
    | rejected | unnamed => cases ok
    | assembled => exact provenance_of_assembled ok

theorem artifacts_go_back (sources : SourceSet) :
    let canonical := CanonicalSources.ofSources sources
    (∀ name, canonical.texts.contains name = true ↔
      ∃ path, sources.contains path = true ∧ canonicalize path = name) ∧
    (∀ name, canonical.paths.contains name = true ↔
      ∃ path, sources.contains path = true ∧ canonicalize path = name) ∧
    (∀ name path, canonical.paths.find? name = some path ↔ IsOriginal sources name path) ∧
    (∀ name path, IsOriginal sources name path →
      canonical.texts.find? name = sources.find? path) ∧
    ((∀ path path', sources.contains path = true → sources.contains path' = true →
        canonicalize path = canonicalize path' → path = path') →
      ∀ path, sources.contains path = true →
        canonical.paths.find? (canonicalize path) = some path) ∧
    ∀ (config : Config) (options : BuildOptions) (resolver : Resolver σ) (w : σ)
        (built : CompiledContracts),
      ((compile config options resolver sources).run w).result = .ok built →
        sources = .empty ∧ built = .empty ∨
          ∃ response, Responds config resolver sources w response ∧
            Provenance sources response built := by
  refine ⟨fun _ => CanonicalSources.contains_texts_iff,
    fun _ => CanonicalSources.contains_paths_iff,
    fun _ _ => CanonicalSources.find?_paths_eq_some_iff,
    fun _ _ => CanonicalSources.text?_of_isOriginal, fun apart path given => ?_,
    fun _ _ _ _ _ => provenance_of_compile⟩
  exact CanonicalSources.find?_paths_eq_some_iff.2
    (CanonicalSources.isOriginal_of_unique given fun other given' => apart other path given' given)

def relaying (answer : String) : Compiler Unit where
  name := "relaying"
  exposes entry := entry = .compile
  call _ _ _ := pure answer
  version := pure "0.5.4"

theorem result_relaying {answer : String} {response : Response}
    (read : Response.reader.runString answer = .ok response) (filled : sources ≠ .empty)
    (passed : ∀ d ∈ response.errors, ¬ d.Condemns false) :
    ((compile .default .default (always (relaying answer)) sources).run ()).result =
      assemble response (.ofSources sources) (.solc "0.5.4") := by
  have course : Course .default .default (always (relaying answer)) sources () _ _ :=
    .answered filled compilerVersion_default rfl (.read (.compile rfl rfl) rfl read)
      (.assembled passed rfl)
  rw [course.run]

def collidingSources : SourceSet :=
  .ofList [("C:/a.sol", "x;"), ("C:\\a.sol", "y;"), ("b.sol", "z;")]

def generatedText : String :=
  "\x7b\"contracts\":\x7b\"/C/a.sol\":\x7b\"T\":\x7b\x7d\x7d,\"gen\":\x7b\"G\":\x7b\x7d\x7d\x7d," ++
  "\"sources\":\x7b\"/C/a.sol\":\x7b\"id\":1\x7d,\"b.sol\":\x7b\"id\":0\x7d\x7d\x7d"

def generated : Response where
  errors := []
  sources := .ofList [("/C/a.sol", ⟨1, none, none⟩), ("b.sol", ⟨0, none, none⟩)]
  contracts := .ofList
    [("/C/a.sol", .singleton "T" ⟨[], none⟩), ("gen", .singleton "G" ⟨[], none⟩)]

theorem eq_of_contains_oneSource {path : String} (given : oneSource.contains path = true) :
    path = "a.sol" := by
  obtain ⟨text, found⟩ := Option.isSome_iff_exists.1 given
  exact congrArg Prod.fst (List.mem_singleton.1 ((SortedMap.find?_eq_some_iff _).1 found))

theorem artifacts_go_back_colliding :
    (CanonicalSources.ofSources collidingSources).texts.find? "/C/a.sol" = some "y;" ∧
    (CanonicalSources.ofSources oneSource).paths.find? "a.sol" = some "a.sol" ∧
    ∃ built response, ((compile .default .default (always (relaying generatedText))
        collidingSources).run ()).result = .ok built ∧
      Responds .default (always (relaying generatedText)) collidingSources () response ∧
      Provenance collidingSources response built := by
  obtain ⟨-, -, original, text, -, traced⟩ := artifacts_go_back (σ := Unit) collidingSources
  obtain ⟨-, -, -, -, back, -⟩ := artifacts_go_back (σ := Unit) oneSource
  have named : IsOriginal collidingSources "/C/a.sol" "C:\\a.sol" :=
    (original _ _).1 (by decide +kernel)
  have apart (path path' : String) (given : oneSource.contains path = true)
      (given' : oneSource.contains path' = true) (_ : canonicalize path = canonicalize path') :
      path = path' := by
    rw [eq_of_contains_oneSource given, eq_of_contains_oneSource given']
  have filled : collidingSources ≠ .empty := by decide +kernel
  have read : Response.reader.runString generatedText = .ok generated := by decide +kernel
  have ok : ∃ built, ((compile .default .default (always (relaying generatedText))
      collidingSources).run ()).result = .ok built := by
    rw [result_relaying read filled nofun]
    exact ⟨_, rfl⟩
  obtain ⟨built, ok⟩ := ok
  obtain ⟨response, responds, provenance⟩ := (traced _ _ _ _ _ ok).resolve_left fun h => filled h.1
  exact ⟨(text _ _ named).trans (by decide +kernel), back apart "a.sol" rfl, built, response, ok,
    responds, provenance⟩

def sharedNumberText : String :=
  "\x7b\"contracts\":\x7b\"a.sol\":\x7b\"T\":\x7b\x7d\x7d\x7d," ++
  "\"sources\":\x7b\"a.sol\":\x7b\"id\":7\x7d,\"b.sol\":\x7b\"id\":7\x7d\x7d\x7d"

def sharedNumber : Response where
  errors := []
  sources := .ofList [("a.sol", ⟨7, none, none⟩), ("b.sol", ⟨7, none, none⟩)]
  contracts := .singleton "a.sol" (.singleton "T" ⟨[], none⟩)

/-- The only contract is one of `a.sol`, and the number of this file leads to another file. -/
theorem number_leads_elsewhere :
    Responds .default (always (relaying sharedNumberText)) oneSource () sharedNumber ∧
    sharedNumber.contracts.keys = ["a.sol"] ∧
    sharedNumber.sources.find? "a.sol" = some ⟨7, none, none⟩ ∧
    ∃ built a, ((compile .default .default (always (relaying sharedNumberText))
        oneSource).run ()).result = .ok built ∧
      built.contracts.find? "T" = some a ∧ a.sourcePath = "a.sol" ∧
      built.files.find? 7 = some "b.sol" := by
  have read : Response.reader.runString sharedNumberText = .ok sharedNumber := by decide +kernel
  refine ⟨⟨_, _, _, _, _, _, _, compilerVersion_default, rfl,
    .read (.compile rfl rfl) rfl read⟩, rfl, rfl, ?_⟩
  rw [result_relaying read (by decide +kernel) nofun]
  exact ⟨_, _, rfl, rfl, rfl, rfl⟩

end Build
end ContractBuild
