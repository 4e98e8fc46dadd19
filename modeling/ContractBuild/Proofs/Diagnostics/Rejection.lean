import ContractBuild.Compiler.SingleSource
import ContractBuild.Proofs.Artifact.Assembly
import ContractBuild.Proofs.Build.Steps
import ContractBuild.Proofs.Diagnostics.Triage
import ContractBuild.Proofs.Response.Values

/-!
# Which diagnostics fail a run

A build and a quick run fail with the messages of the compiler exactly if one of the diagnostics
that they do not tolerate is not taken for the advisory. So an error whose text holds the remark,
say because it quotes a line of a source with these words, goes unnoticed.
-/

namespace ContractBuild

variable {σ : Type} {strict : Bool} {response : Response}

theorem Triage.verdict_ofDiagnostics_eq_none_iff {diagnostics : List Diagnostic} :
    (ofDiagnostics strict diagnostics).verdict = none ↔
      ∀ d ∈ diagnostics, isFatal strict d.severity = true → d.HoldsAdvisory := by
  have fatal : (ofDiagnostics strict diagnostics).fatal = [] ↔
      ∀ d ∈ diagnostics, isFatal strict d.severity = true → d.HoldsAdvisory := by
    simp only [ofDiagnostics, List.filter_eq_nil_iff, Diagnostic.mem_withoutAdvisories, and_imp]
    refine forall₂_congr fun d _ => ?_
    rw [not_imp_comm]
    exact imp_congr_left not_not
  simp [verdict, fatal]

theorem Link.patchAll_ne_rejected (code : List Char) (found : List Link.Reference)
    (messages : String) : Link.patchAll code found ≠ .error (.rejected messages) := by
  induction found generalizing code with
  | nil => exact nofun
  | cons r found ih =>
    rw [Link.patchAll, List.foldlM_cons]
    cases first : Link.patch code r with
    | ok code' => exact ih code'
    | error f =>
      intro eq
      cases eq
      simp only [Link.patch] at first
      split at first <;> cases first

theorem Declaration.linked_ne_rejected (code : Option Bytecode) (messages : String) :
    Declaration.linked code ≠ .error (.rejected messages) := by
  cases code with
  | none => exact nofun
  | some code =>
    intro failed
    have failed : (Link.patchAll ("0x" ++ code.object).toList
      (Link.references code.linkReferences)).map String.ofList = _ := failed
    cases patched : Link.patchAll ("0x" ++ code.object).toList
        (Link.references code.linkReferences) with
    | ok text =>
      rw [patched] at failed
      cases failed
    | error f =>
      rw [patched] at failed
      cases failed
      exact Link.patchAll_ne_rejected _ _ messages patched

theorem assemble_ne_rejected (response : Response) (sources : CanonicalSources)
    (compiler : CompilerInfo) (messages : String) :
    assemble response sources compiler ≠ .error (.rejected messages) := by
  rw [ne_eq, assemble_eq_error_iff, mapM_eq_error_iff]
  intro ⟨_, d, _, _, _, failed⟩
  rcases Declaration.artifact_eq_error_iff.1 failed with failed | ⟨-, failed⟩ <;>
    exact Declaration.linked_ne_rejected _ _ failed

namespace Build

variable {config : Config} {options : BuildOptions} {resolver : Resolver σ} {sources : SourceSet}
  {s s₁ s₂ : σ} {version : Version} {compiler : Compiler σ} {notes notes' : List Note}

theorem resolve_always (supported : config.compilerVersion = .ok version) :
    (resolve config (always compiler)).run s = ⟨.ok (version, compiler), [], s⟩ :=
  resolve_of_resolved supported rfl

theorem compilerVersion_default : Config.default.compilerVersion = .ok (.release 0 5 4) := by
  decide +kernel

theorem compile_result (filled : (CanonicalSources.ofSources sources).isEmpty = false)
    (resolved : (resolve config resolver).run s = ⟨.ok (version, compiler), notes, s₁⟩)
    (answered : (compiler.invoke (.ofSources (.ofSources sources) config) none).run s₁ =
      ⟨.ok response, notes', s₂⟩) :
    ((compile config options resolver sources).run s).result =
      match (Triage.ofDiagnostics options.strict response.errors).verdict with
      | some messages => .error (.rejected messages)
      | none => (compiler.version.run s₂).result >>= fun name =>
        assemble response (.ofSources sources) (.solc name) := by
  cases verdict : (Triage.ofDiagnostics options.strict response.errors).verdict with
  | some messages => rw [compile_of_rejected filled resolved answered verdict]
  | none => rw [compile_of_passed filled resolved answered verdict]

end Build

namespace SingleSource

variable {c : Compiler σ} {files : FileTree} {body : String} {name root : Option String}
  {s s' : σ} {notes : List Note} {remappings : List Remapping}

def rootRemappings (files : FileTree) (root : Option String) : Except Failure (List Remapping) :=
  match root with
  | some root => Manifest.remappings files root
  | none => .ok []

def syntaxRequest (body : String) (name : Option String) (remappings : List Remapping) : Request :=
  .single (name.getD fileName) body { Settings.select .astOnly with remappings }

def fileImports (files : FileTree) (root : Option String) : Asked σ :=
  fun path s => (.contents (readOrStub files root path), s)

theorem parse_result (mapped : rootRemappings files root = .ok remappings)
    (answered : (c.invoke (syntaxRequest body name remappings) (some (fileImports files root))).run s =
      ⟨.ok response, notes, s'⟩) :
    ((parse c files body name root).run s).result =
      parsedOf (name.getD fileName) response := by
  change ((Job.ofExcept (rootRemappings files root) >>= fun remappings =>
    c.invoke (syntaxRequest body name remappings) (some (fileImports files root)) >>= fun response =>
      Job.ofExcept (parsedOf (name.getD fileName) response)).run s).result = _
  simp only [mapped, Job.run_bind, Job.ofExcept, answered]

theorem parsedOf_rejected_iff {file : String} :
    (∃ messages, parsedOf file response = .error (.rejected messages)) ↔
      ∃ d ∈ response.errors, d.severity ≠ .warning ∧ ¬ d.HoldsAdvisory := by
  unfold parsedOf
  cases found : (Diagnostic.withoutAdvisories response.errors).find? fun d =>
      d.severity ≠ .warning with
  | none =>
    simp only [List.find?_eq_none, decide_eq_true_eq, Diagnostic.mem_withoutAdvisories] at found
    refine ⟨fun ⟨_, eq⟩ => (nomatch eq), fun ⟨d, mem, unfit, plain⟩ => ?_⟩
    exact absurd unfit (found d ⟨mem, plain⟩)
  | some d =>
    obtain ⟨mem, plain⟩ := Diagnostic.mem_withoutAdvisories.1 (List.mem_of_find?_eq_some found)
    have unfit : d.severity ≠ .warning := by
      simpa only [decide_eq_true_eq] using List.find?_some found
    exact ⟨fun _ => ⟨d, mem, unfit, plain⟩, fun _ => ⟨d.formatted, rfl⟩⟩

end SingleSource

/-- The first part is about builds, in strict mode or not, and the second about quick runs. -/
theorem rejected_iff_visible :
    (∀ (config : Config) (options : BuildOptions) (resolver : Build.Resolver σ)
        (sources : SourceSet) (version : Version) (compiler : Compiler σ) (response : Response)
        (s s₁ s₂ : σ) (notes notes' : List Note),
      (CanonicalSources.ofSources sources).isEmpty = false →
      (Build.resolve config resolver).run s = ⟨.ok (version, compiler), notes, s₁⟩ →
      (compiler.invoke (.ofSources (.ofSources sources) config) none).run s₁ =
        ⟨.ok response, notes', s₂⟩ →
      (∀ messages, (compiler.version.run s₂).result ≠ .error (.rejected messages)) →
      ((∃ messages, ((Build.compile config options resolver sources).run s).result =
          .error (.rejected messages)) ↔
        ∃ d ∈ response.errors, Triage.isFatal options.strict d.severity = true ∧
          ¬ d.HoldsAdvisory)) ∧
    (∀ (c : Compiler σ) (files : FileTree) (body : String) (name root : Option String)
        (remappings : List Remapping) (response : Response) (s s' : σ) (notes : List Note),
      SingleSource.rootRemappings files root = .ok remappings →
      (c.invoke (SingleSource.syntaxRequest body name remappings)
        (some (SingleSource.fileImports files root))).run s = ⟨.ok response, notes, s'⟩ →
      ((∃ messages, ((SingleSource.parse c files body name root).run s).result =
          .error (.rejected messages)) ↔
        ∃ d ∈ response.errors, d.severity ≠ .warning ∧ ¬ d.HoldsAdvisory)) := by
  constructor
  · intro config options resolver sources version compiler response s s₁ s₂ notes notes' filled
      resolved answered versioned
    rw [Build.compile_result filled resolved answered]
    cases verdict : (Triage.ofDiagnostics options.strict response.errors).verdict with
    | none =>
      have hidden := Triage.verdict_ofDiagnostics_eq_none_iff.1 verdict
      refine ⟨fun ⟨messages, eq⟩ => ?_, fun ⟨d, mem, fatal, plain⟩ => ?_⟩
      · cases named : (compiler.version.run s₂).result with
        | error f =>
          rw [named] at eq
          cases eq
          exact absurd named (versioned messages)
        | ok name =>
          rw [named] at eq
          exact absurd eq (assemble_ne_rejected _ _ _ messages)
      · exact absurd (hidden d mem fatal) plain
    | some messages =>
      refine ⟨fun _ => ?_, fun _ => ⟨messages, rfl⟩⟩
      by_contra none
      push Not at none
      rw [Triage.verdict_ofDiagnostics_eq_none_iff.2 none] at verdict
      cases verdict
  · intro c files body name root remappings response s s' notes mapped answered
    rw [SingleSource.parse_result mapped answered]
    exact SingleSource.parsedOf_rejected_iff

def answering (diagnostics : List Diagnostic) : Compiler Unit where
  name := "answering"
  exposes entry := entry = .compileStandard
  call _ _ _ := pure (Response.briefJson diagnostics).text
  version := pure "0.5.4"

theorem invoke_answering {diagnostics : List Diagnostic} (brief : ∀ d ∈ diagnostics, d.IsBrief)
    (request : Request) (imports : Option (Asked Unit)) :
    ((answering diagnostics).invoke request imports).run () =
      ⟨.ok ⟨diagnostics, .empty, .empty⟩, [], ()⟩ := by
  change (Job.ofExcept ((Response.reader.runString
    (Response.briefJson diagnostics).text).mapError Failure.json)).run () = _
  rw [Response.runString_briefJson brief]
  rfl

def plainError : Diagnostic := .brief .error "Unknown x." "1:1: Unknown x."

theorem plainError_not_holdsAdvisory : ¬ plainError.HoldsAdvisory := by
  rw [← Diagnostic.isAdvisory_eq_false_iff]
  decide +kernel

def remarkedLine : String := "1:1: Unknown x.\nx; // " ++ Diagnostic.advisory

def remarkedError : Diagnostic := .brief .error "Unknown x." remarkedLine

theorem remarkedError_holdsAdvisory : remarkedError.HoldsAdvisory := by
  have line : remarkedLine.toList =
      "1:1: Unknown x.\nx; // ".toList ++ Diagnostic.advisory.toList := String.toList_append
  exact .inr ⟨remarkedLine, rfl, "1:1: Unknown x.\nx; // ".toList, [],
    (List.append_nil _).trans line.symm⟩

theorem isBrief_both : ∀ d ∈ [remarkedError, plainError], d.IsBrief := by
  simp [remarkedError, plainError, Diagnostic.isBrief_brief]

theorem isBrief_remarked : ∀ d ∈ [remarkedError], d.IsBrief := by
  simp [remarkedError, Diagnostic.isBrief_brief]

def oneSource : SourceSet := .singleton "a.sol" "x;"

theorem rejected_iff_visible_both :
    (∃ messages, ((Build.compile .default .default
      (Build.always (answering [remarkedError, plainError])) oneSource).run ()).result =
        .error (.rejected messages)) ∧
    ∃ messages, ((SingleSource.parse (answering [remarkedError, plainError]) .empty "x;"
      none none).run ()).result = .error (.rejected messages) := by
  obtain ⟨builds, parses⟩ := @rejected_iff_visible Unit
  have reported : plainError ∈ [remarkedError, plainError] := by simp
  constructor
  · exact (builds .default .default (Build.always (answering _)) oneSource (.release 0 5 4)
      (answering _) _ () () () [] [] rfl
      (Build.resolve_always Build.compilerVersion_default) (invoke_answering isBrief_both _ _) nofun).2
        ⟨plainError, reported, rfl, plainError_not_holdsAdvisory⟩
  · exact (parses (answering _) .empty "x;" none none [] _ () () [] rfl
      (invoke_answering isBrief_both _ _)).2
        ⟨plainError, reported, nofun, plainError_not_holdsAdvisory⟩

/-- An error that is taken for the advisory leaves an empty build and an empty tree. -/
theorem remarked_error_swallowed :
    remarkedError.severity = .error ∧
    ((answering [remarkedError]).invoke
      (.ofSources (.ofSources oneSource) .default) none).run () =
        ⟨.ok ⟨[remarkedError], .empty, .empty⟩, [], ()⟩ ∧
    (∀ strict quiet, ((Build.compile .default ⟨strict, quiet⟩
      (Build.always (answering [remarkedError])) oneSource).run ()).result = .ok .empty) ∧
    ((SingleSource.parse (answering [remarkedError]) .empty "x;" none none).run ()).result =
      .ok ⟨[], none⟩ := by
  refine ⟨rfl, invoke_answering isBrief_remarked _ _, fun strict quiet => ?_, ?_⟩
  · have verdict : (Triage.ofDiagnostics strict [remarkedError]).verdict = none := by
      rw [Triage.verdict_ofDiagnostics_eq_none_iff]
      intro d mem _
      exact List.mem_singleton.1 mem ▸ remarkedError_holdsAdvisory
    rw [Build.compile_result rfl (Build.resolve_always Build.compilerVersion_default)
      (invoke_answering isBrief_remarked _ _)]
    simp only [verdict]
    rfl
  · have hidden : Diagnostic.withoutAdvisories [remarkedError] = [] := by
      rw [Diagnostic.withoutAdvisories, List.filter_eq_nil_iff]
      intro d mem
      rw [List.mem_singleton.1 mem, Diagnostic.isAdvisory_eq_true_iff.2 remarkedError_holdsAdvisory]
      decide
    rw [SingleSource.parse_result rfl (invoke_answering isBrief_remarked _ _),
      SingleSource.parsedOf, hidden]
    rfl

end ContractBuild
