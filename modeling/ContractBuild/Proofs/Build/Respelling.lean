import ContractBuild.Proofs.Build.Provenance

/-!
# Two spellings of the same sources

Two source sets may spell their paths differently and still give the same texts to the same
canonical names. Builds of them are alike: the compiler is asked for the same, all notes are the
same, and both fail in the same way or make the same artifacts. Only the paths that go back to the
caller are those of each set.
-/

namespace ContractBuild

variable {σ : Type} {sources sources' : SourceSet}

def SameTexts (sources sources' : SourceSet) : Prop :=
  (CanonicalSources.ofSources sources).texts = (CanonicalSources.ofSources sources').texts

namespace SameTexts

variable (same : SameTexts sources sources')

include same

theorem symm : SameTexts sources' sources := Eq.symm same

theorem request (config : Config) : Request.ofSources (.ofSources sources) config =
    Request.ofSources (.ofSources sources') config := by
  rw [Request.ofSources, Request.ofSources, same]

theorem text? (name : String) : (CanonicalSources.ofSources sources).text? name =
    (CanonicalSources.ofSources sources').text? name := by
  rw [CanonicalSources.text?, CanonicalSources.text?, same]

theorem named_iff (name : String) :
    (∃ path, sources.contains path = true ∧ canonicalize path = name) ↔
      ∃ path, sources'.contains path = true ∧ canonicalize path = name := by
  rw [← CanonicalSources.contains_texts_iff, ← CanonicalSources.contains_texts_iff, same]

theorem eq_empty (none : sources = .empty) : sources' = .empty := by
  subst none
  refine SortedMap.eq_empty_iff.2 fun path => ?_
  by_contra given
  rw [Bool.not_eq_false] at given
  obtain ⟨_, given', -⟩ := (same.named_iff (canonicalize path)).2 ⟨path, given, rfl⟩
  cases given'

theorem filled (filled : sources ≠ .empty) : sources' ≠ .empty :=
  fun none => filled (same.symm.eq_empty none)

end SameTexts

inductive TracedTwice (sources sources' : SourceSet) (name : String) :
    String → String → String → Prop
  | given {path path' text : String} (original : IsOriginal sources name path)
      (found : sources.find? path = some text) (original' : IsOriginal sources' name path')
      (found' : sources'.find? path' = some text) :
      TracedTwice sources sources' name path path' text
  | foreign (unknown : ∀ path, sources.contains path = true → canonicalize path ≠ name)
      (unknown' : ∀ path, sources'.contains path = true → canonicalize path ≠ name) :
      TracedTwice sources sources' name name name ""

theorem Traced.both {name path path' text text' : String} (same : SameTexts sources sources')
    (traced : Traced sources name path text) (traced' : Traced sources' name path' text') :
    TracedTwice sources sources' name path path' text := by
  cases traced with
  | given original found =>
    cases traced' with
    | given original' found' =>
      have text := same.text? name
      rw [CanonicalSources.text?_of_isOriginal original,
        CanonicalSources.text?_of_isOriginal original', found] at text
      exact .given original found original' text.symm
    | foreign unknown =>
      obtain ⟨other, given, named⟩ := (same.named_iff name).1 ⟨_, original.given, original.named⟩
      exact absurd named (unknown other given)
  | foreign unknown =>
    cases traced' with
    | given original' =>
      obtain ⟨other, given, named⟩ := (same.named_iff name).2 ⟨_, original'.given, original'.named⟩
      exact absurd named (unknown other given)
    | foreign unknown' => exact .foreign unknown unknown'

theorem Declaration.Links.unique {code : Option Bytecode} {text text' : String}
    (links : Links code text) (links' : Links code text') : text = text' := by
  rw [← linked_eq_ok_iff] at links links'
  exact Except.ok.inj (links.symm.trans links')

theorem Declaration.Yields.eq_of_sameTexts {response : Response} {compiler : CompilerInfo}
    {path name : String} {contract : Contract} {a a' : Artifact}
    (same : SameTexts sources sources')
    (yields : Yields response (.ofSources sources) compiler path name contract a)
    (yields' : Yields response (.ofSources sources') compiler path name contract a') :
    a' = { a with sourcePath := a'.sourcePath } := by
  have bytecode : a'.bytecode = a.bytecode := yields'.bytecode.unique yields.bytecode
  have deployed : a'.deployedBytecode = a.deployedBytecode :=
    yields'.deployedBytecode.unique yields.deployedBytecode
  have source : a'.source = a.source := by rw [yields'.source, yields.source, same.text?]
  cases a'
  simp only [Artifact.mk.injEq]
  exact ⟨yields'.contractName.trans yields.contractName.symm, trivial, source,
    yields'.sourceMap.trans yields.sourceMap.symm,
    yields'.deployedSourceMap.trans yields.deployedSourceMap.symm,
    yields'.legacyAst.trans yields.legacyAst.symm, yields'.ast.trans yields.ast.symm,
    yields'.abi.trans yields.abi.symm, bytecode, deployed,
    yields'.unlinkedBinary.trans (bytecode.trans yields.unlinkedBinary.symm),
    yields'.compiler.trans yields.compiler.symm⟩

theorem rel_of_forall {α : Type} {R : α → α → Prop} {x y : Option α}
    (forward : ∀ a, x = some a → ∃ b, y = some b ∧ R a b) (none : x = none → y = none) :
    Option.Rel R x y := by
  cases x with
  | none =>
    rw [none rfl]
    exact .none
  | some a =>
    obtain ⟨b, rfl, related⟩ := forward a rfl
    exact .some related

/-- The artifacts and the numbers of files that one response gives with two spellings: the same
names and the same numbers, and each of them with the two paths of one canonical name. -/
structure Respelled (sources sources' : SourceSet) (response : Response)
    (built built' : CompiledContracts) : Prop where
  artifacts : ∀ name, Option.Rel
    (fun a a' => a' = { a with sourcePath := a'.sourcePath } ∧ ∃ path,
      response.Declares path name ∧
        TracedTwice sources sources' path a.sourcePath a'.sourcePath a.source)
    (built.contracts.find? name) (built'.contracts.find? name)
  files : ∀ id, Option.Rel
    (fun original original' => ∃ path text, response.Numbers id path ∧
      TracedTwice sources sources' path original original' text)
    (built.files.find? id) (built'.files.find? id)

section

variable {response : Response} {compiler : CompilerInfo} {built built' : CompiledContracts}

theorem respelled_of_assembled (same : SameTexts sources sources')
    (made : assemble response (.ofSources sources) compiler = .ok built)
    (made' : assemble response (.ofSources sources') compiler = .ok built') :
    Respelled sources sources' response built built' where
  artifacts name := by
    have assembled := assembled_of_ok made
    have assembled' := assembled_of_ok made'
    refine rel_of_forall (fun a found => ?_) fun none => ?_
    · obtain ⟨path, -, declares, -⟩ := exists_declares_of_find? made found
      obtain ⟨contract, declared⟩ := declares.declared
      obtain ⟨_, found₁, yields⟩ := assembled.winners path name contract declared declares.greatest
      obtain ⟨a', found', yields'⟩ :=
        assembled'.winners path name contract declared declares.greatest
      obtain rfl := Option.some.inj (found.symm.trans found₁)
      exact ⟨a', found', yields.eq_of_sameTexts same yields', path, declares,
        Traced.both same (traced_iff.2 ⟨yields.sourcePath, yields.source⟩)
          (traced_iff.2 ⟨yields'.sourcePath, yields'.source⟩)⟩
    · rw [← Option.not_isSome_iff_eq_none] at none ⊢
      exact fun present => none
        ((assembled.names name).2 ((assembled'.names name).1 present))
  files id := by
    have files := (provenance_of_assembled made).files id
    have files' := (provenance_of_assembled made').files id
    refine rel_of_forall (fun original found => ?_) fun none => ?_
    · obtain ⟨path, text, numbers, traced⟩ := (files original).1 found
      have traced' : Traced sources' path _ _ := traced_iff.2 ⟨rfl, rfl⟩
      exact ⟨_, (files' _).2 ⟨path, _, numbers, traced'⟩, path, text, numbers,
        traced.both same traced'⟩
    · rw [Option.eq_none_iff_forall_ne_some] at none ⊢
      intro original' found'
      obtain ⟨path, text, numbers, -⟩ := (files' original').1 found'
      exact none _ ((files _).2 ⟨path, _, numbers, traced_iff.2 ⟨rfl, rfl⟩⟩)

theorem assemble_eq_error_congr (sources sources' : CanonicalSources) {f : Failure} :
    assemble response sources compiler = .error f ↔
      assemble response sources' compiler = .error f := by
  rw [assemble_eq_error_iff, assemble_eq_error_iff, mapM_artifact_eq_error_iff,
    mapM_artifact_eq_error_iff]

end

namespace Build

variable {config : Config} {options : BuildOptions} {resolver : Resolver σ} {w w' : σ}

inductive EndsAlike (sources sources' : SourceSet) (response : Response) :
    Except Failure CompiledContracts → Except Failure CompiledContracts → Prop
  | failed (f : Failure) : EndsAlike sources sources' response (.error f) (.error f)
  | made {built built' : CompiledContracts}
      (respelled : Respelled sources sources' response built built') :
      EndsAlike sources sources' response (.ok built) (.ok built')

theorem endsAlike_assemble (same : SameTexts sources sources') (response : Response)
    (compiler : CompilerInfo) :
    EndsAlike sources sources' response (assemble response (.ofSources sources) compiler)
      (assemble response (.ofSources sources') compiler) := by
  cases made : assemble response (.ofSources sources) compiler with
  | error f =>
    rw [(assemble_eq_error_congr _ _).1 made]
    exact .failed f
  | ok built =>
    cases made' : assemble response (.ofSources sources') compiler with
    | error f =>
      rw [(assemble_eq_error_congr _ _).1 made'] at made
      cases made
    | ok built' => exact .made (respelled_of_assembled same made made')

theorem Judges.respelled {version : Version} {c : Compiler σ} {response : Response}
    {result : Except Failure CompiledContracts} {contacts : List Contact} {said : List Note}
    (same : SameTexts sources sources')
    (judges : Judges options (.ofSources sources) version c response w result contacts said w') :
    ∃ result', Judges options (.ofSources sources') version c response w result' contacts said w' ∧
      EndsAlike sources sources' response result result' := by
  cases judges with
  | rejected condemned => exact ⟨_, .rejected condemned, .failed _⟩
  | unnamed passed named => exact ⟨_, .unnamed passed named, .failed _⟩
  | assembled passed named =>
    exact ⟨_, .assembled passed named, endsAlike_assemble same response _⟩

/-- How two builds come out alike: with one failure, with nothing to compile, or with what one
response gives. -/
inductive Alike (config : Config) (resolver : Resolver σ) (sources sources' : SourceSet) (w : σ) :
    Except Failure CompiledContracts → Except Failure CompiledContracts → Prop
  | failed (f : Failure) : Alike config resolver sources sources' w (.error f) (.error f)
  | nothing (none : sources = .empty) (none' : sources' = .empty) :
      Alike config resolver sources sources' w (.ok .empty) (.ok .empty)
  | made {response : Response} {built built' : CompiledContracts}
      (responds : Responds config resolver sources w response)
      (respelled : Respelled sources sources' response built built') :
      Alike config resolver sources sources' w (.ok built) (.ok built')

theorem Course.respelled {o : Job.Outcome σ CompiledContracts} {contacts : List Contact}
    (same : SameTexts sources sources')
    (course : Course config options resolver sources w o contacts) :
    ∃ result', Course config options resolver sources' w ⟨result', o.notes, o.state⟩ contacts ∧
      Alike config resolver sources sources' w o.result result' := by
  cases course with
  | empty none => exact ⟨_, .empty (same.eq_empty none), .nothing none (same.eq_empty none)⟩
  | unsupported filled unknown =>
    exact ⟨_, .unsupported (same.filled filled) unknown, .failed _⟩
  | unresolved filled supported failed =>
    exact ⟨_, .unresolved (same.filled filled) supported failed, .failed _⟩
  | unanswered filled supported resolved answers =>
    refine ⟨_, ?_, .failed _⟩
    rw [same.request config] at answers ⊢
    exact .unanswered (same.filled filled) supported resolved answers
  | answered filled supported resolved answers judges =>
    have responds : Responds config resolver sources w _ :=
      ⟨_, _, _, _, _, _, _, supported, resolved, answers⟩
    obtain ⟨result', judges', alike⟩ := judges.respelled same
    refine ⟨result', ?_, ?_⟩
    · rw [same.request config] at answers ⊢
      exact .answered (same.filled filled) supported resolved answers judges'
    · cases alike with
      | failed f => exact .failed f
      | made respelled => exact .made responds respelled

/-- What is asked of others, what they answer and what is said depend on the texts of the canonical
names alone, and so does the result but for the paths that go back to the caller. -/
theorem spelling_does_not_matter (same : SameTexts sources sources') (config : Config)
    (options : BuildOptions) (resolver : Resolver σ) (w : σ) :
    let o := (compile config options resolver.watched sources).run ⟨w, []⟩
    let o' := (compile config options resolver.watched sources').run ⟨w, []⟩
    o'.state = o.state ∧ o'.notes = o.notes ∧
      Alike config resolver sources sources' w o.result o'.result := by
  obtain ⟨o, contacts, course⟩ := exists_course config options resolver sources w
  obtain ⟨result', course', alike⟩ := course.respelled same
  rw [course.run_watched, course'.run_watched]
  exact ⟨rfl, rfl, alike⟩

theorem result_watched (config : Config) (options : BuildOptions) (resolver : Resolver σ)
    (sources : SourceSet) (w : σ) :
    ((compile config options resolver.watched sources).run ⟨w, []⟩).result =
      ((compile config options resolver sources).run w).result := by
  obtain ⟨o, contacts, course⟩ := exists_course config options resolver sources w
  rw [course.run, course.run_watched]

def unixSources : SourceSet := .ofList [("/C/a.sol", "y;"), ("b.sol", "z;")]

theorem spelling_does_not_matter_colliding :
    SameTexts collidingSources unixSources ∧
    ∃ response built built',
      Respelled collidingSources unixSources response built built' ∧
      (built.contracts.find? "T").map Artifact.sourcePath = some "C:\\a.sol" ∧
      (built'.contracts.find? "T").map Artifact.sourcePath = some "/C/a.sol" ∧
      (built.files.find? 1, built'.files.find? 1) = (some "C:\\a.sol", some "/C/a.sol") := by
  have same : SameTexts collidingSources unixSources := by unfold SameTexts; decide +kernel
  refine ⟨same, ?_⟩
  have read : Response.reader.runString generatedText = .ok generated := by decide +kernel
  have filled : collidingSources ≠ .empty := by decide +kernel
  obtain ⟨-, -, alike⟩ :=
    spelling_does_not_matter same .default .default (always (relaying generatedText)) ()
  rw [result_watched, result_watched, result_relaying read filled nofun,
    result_relaying read (same.filled filled) nofun] at alike
  generalize made : assemble generated (.ofSources collidingSources) (.solc "0.5.4") = result,
    made' : assemble generated (.ofSources unixSources) (.solc "0.5.4") = result' at alike
  cases alike with
  | failed f => cases made
  | nothing none => exact absurd none filled
  | made responds respelled =>
    cases made
    cases made'
    exact ⟨_, _, _, respelled, rfl, rfl, rfl⟩

end Build
end ContractBuild
