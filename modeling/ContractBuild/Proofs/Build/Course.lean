import ContractBuild.Proofs.Build.Steps
import ContractBuild.Proofs.Diagnostics.Triage
import ContractBuild.Proofs.Registry.Resolution
import ContractBuild.Proofs.Sources.Origin

/-!
# The course of a build

A build without sources does nothing. Any other resolves a compiler, announces one request, calls
the compiler once with the text of this request, logs the warnings of the answer, and then ends with
the fatal diagnostics or announces its success and asks for the name of the compiler. It goes as far
as nothing fails, and the first failure is its result.
-/

namespace ContractBuild

variable {σ α : Type}

inductive Contact
  | resolved (version : Version)
  | called (entry : EntryPoint) (input : String) (imports : Bool)
  | named
  deriving DecidableEq

def Contact.isCall : Contact → Bool
  | called _ _ _ => true
  | resolved _ | named => false

structure Watched (σ : Type) where
  world : σ
  contacts : List Contact

def Job.watch (contact : Contact) (job : Job σ α) : Job (Watched σ) α := ⟨fun s =>
  let o := job.run s.world
  ⟨o.result, o.notes, ⟨o.state, s.contacts ++ [contact]⟩⟩⟩

def Asked.unwatched (imports : Asked (Watched σ)) (contacts : List Contact) : Asked σ :=
  fun path world =>
    let (answer, s) := imports path ⟨world, contacts⟩
    (answer, s.world)

def Compiler.watched (c : Compiler σ) : Compiler (Watched σ) where
  name := c.name
  exposes := c.exposes
  call entry input imports := ⟨fun s => (Job.watch (.called entry input imports.isSome)
    (c.call entry input (imports.map (Asked.unwatched · s.contacts)))).run s⟩
  version := Job.watch .named c.version

def Build.Resolver.watched (resolver : Resolver σ) : Resolver (Watched σ) := fun v => do
  return (← Job.watch (.resolved v) (resolver v)).watched

inductive Compiler.Uses (c : Compiler σ) : EntryPoint → Prop
  | compileStandard (exposed : c.exposes .compileStandard = true) : Uses c .compileStandard
  | compile (hidden : c.exposes .compileStandard = false) (exposed : c.exposes .compile = true) :
      Uses c .compile

namespace Compiler

variable {c : Compiler σ} {entry : EntryPoint}

theorem Uses.entryPoint_eq (uses : c.Uses entry) : c.entryPoint = .ok entry := by
  cases uses with
  | compileStandard exposed => simp [entryPoint, exposed]
  | compile hidden exposed => simp [entryPoint, hidden, exposed]

theorem exists_uses (c : Compiler σ) :
    (∃ entry, c.Uses entry) ∨ ∀ entry, c.exposes entry = false := by
  cases newer : c.exposes .compileStandard with
  | true => exact .inl ⟨_, .compileStandard newer⟩
  | false =>
    cases older : c.exposes .compile with
    | true => exact .inl ⟨_, .compile newer older⟩
    | false =>
      refine .inr fun entry => ?_
      cases entry with
      | compileStandard => exact newer
      | compile => exact older

theorem entryPoint_of_hidden (hidden : ∀ entry, c.exposes entry = false) :
    c.entryPoint = .error (.configuration (.noEntryPoint c.name)) := by
  simp [entryPoint, hidden]

theorem invoke_of_hidden (hidden : ∀ entry, c.exposes entry = false) (request : Request)
    (imports : Option (Asked σ)) (w : σ) : (c.invoke request imports).run w =
      ⟨.error (.configuration (.noEntryPoint c.name)), [], w⟩ := by
  simp only [invoke, entryPoint_of_hidden hidden, Job.run_bind, Job.ofExcept]

theorem invoke_of_failed {request : Request} {imports : Option (Asked σ)} {w w' : σ} {f : Failure}
    {said : List Note} (uses : c.Uses entry)
    (called : (c.call entry request.text imports).run w = ⟨.error f, said, w'⟩) :
    (c.invoke request imports).run w = ⟨.error f, said, w'⟩ := by
  simp only [invoke, uses.entryPoint_eq, Job.run_bind, Job.ofExcept, called, List.nil_append]

theorem invoke_of_called {request : Request} {imports : Option (Asked σ)} {w w' : σ}
    {answer : String} {said : List Note} (uses : c.Uses entry)
    (called : (c.call entry request.text imports).run w = ⟨.ok answer, said, w'⟩) :
    (c.invoke request imports).run w =
      ⟨(Response.reader.runString answer).mapError Failure.json, said, w'⟩ := by
  simp only [invoke, uses.entryPoint_eq, Job.run_bind, Job.ofExcept, called, List.nil_append,
    List.append_nil]

theorem Uses.watched (uses : c.Uses entry) : c.watched.Uses entry := by
  cases uses with
  | compileStandard exposed => exact .compileStandard exposed
  | compile hidden exposed => exact .compile hidden exposed

theorem call_watched {input : String} {w w' : σ} {result : Except Failure String}
    {said : List Note} (called : (c.call entry input none).run w = ⟨result, said, w'⟩)
    (before : List Contact) : (c.watched.call entry input none).run ⟨w, before⟩ =
      ⟨result, said, ⟨w', before ++ [.called entry input false]⟩⟩ := by
  simp only [Compiler.watched, Job.watch, Option.map_none, Option.isSome_none, called]

end Compiler

namespace Build

/-- How a compiler answers a text: the response or the failure, what it is asked for, what it says,
and the world that it leaves. -/
inductive Answers (c : Compiler σ) (input : String) (w : σ) :
    Except Failure Response → List Contact → List Note → σ → Prop
  | noEntryPoint (hidden : ∀ entry, c.exposes entry = false) :
      Answers c input w (.error (.configuration (.noEntryPoint c.name))) [] [] w
  | failed {entry : EntryPoint} {f : Failure} {said : List Note} {w' : σ} (uses : c.Uses entry)
      (called : (c.call entry input none).run w = ⟨.error f, said, w'⟩) :
      Answers c input w (.error f) [.called entry input false] said w'
  | unreadable {entry : EntryPoint} {answer : String} {problem : Json.Problem} {said : List Note}
      {w' : σ} (uses : c.Uses entry)
      (called : (c.call entry input none).run w = ⟨.ok answer, said, w'⟩)
      (garbled : Response.reader.runString answer = .error problem) :
      Answers c input w (.error (.json problem)) [.called entry input false] said w'
  | read {entry : EntryPoint} {answer : String} {response : Response} {said : List Note}
      {w' : σ} (uses : c.Uses entry)
      (called : (c.call entry input none).run w = ⟨.ok answer, said, w'⟩)
      (understood : Response.reader.runString answer = .ok response) :
      Answers c input w (.ok response) [.called entry input false] said w'

theorem exists_answers (c : Compiler σ) (input : String) (w : σ) :
    ∃ result contacts said w', Answers c input w result contacts said w' := by
  rcases c.exists_uses with ⟨entry, uses⟩ | hidden
  · rcases called : (c.call entry input none).run w with ⟨f | answer, said, w'⟩
    · exact ⟨_, _, _, _, .failed uses called⟩
    · cases read : Response.reader.runString answer with
      | error problem => exact ⟨_, _, _, _, .unreadable uses called read⟩
      | ok response => exact ⟨_, _, _, _, .read uses called read⟩
  · exact ⟨_, _, _, _, .noEntryPoint hidden⟩

namespace Answers

variable {c : Compiler σ} {w w' : σ} {result : Except Failure Response} {contacts : List Contact}
  {said : List Note}

theorem invoke {request : Request} (answers : Answers c request.text w result contacts said w') :
    (c.invoke request none).run w = ⟨result, said, w'⟩ := by
  cases answers with
  | noEntryPoint hidden => exact Compiler.invoke_of_hidden hidden request none w
  | failed uses called => exact Compiler.invoke_of_failed uses called
  | unreadable uses called garbled =>
    rw [Compiler.invoke_of_called uses called, garbled]
    rfl
  | read uses called understood =>
    rw [Compiler.invoke_of_called uses called, understood]
    rfl

theorem watched {input : String} (answers : Answers c input w result contacts said w')
    (before : List Contact) :
    Answers c.watched input ⟨w, before⟩ result contacts said ⟨w', before ++ contacts⟩ := by
  cases answers with
  | noEntryPoint hidden =>
    rw [List.append_nil]
    exact .noEntryPoint hidden
  | failed uses called => exact .failed uses.watched (Compiler.call_watched called before)
  | unreadable uses called garbled =>
    exact .unreadable uses.watched (Compiler.call_watched called before) garbled
  | read uses called understood =>
    exact .read uses.watched (Compiler.call_watched called before) understood

theorem calls {input : String} (answers : Answers c input w result contacts said w') :
    contacts.filter Contact.isCall = [] ∨
      ∃ entry, contacts.filter Contact.isCall = [.called entry input false] := by
  cases answers with
  | noEntryPoint => exact .inl rfl
  | failed | unreadable | read => exact .inr ⟨_, rfl⟩

end Answers

open Diagnostic

def logged (options : BuildOptions) (response : Response) : List Note :=
  if options.strict = false ∧ options.quiet = false ∧ ∃ d ∈ response.errors, d.Warns then
    (Triage.logOf (response.errors.filter Warns)).map .message
  else []

theorem log_eq_logged (options : BuildOptions) (response : Response) :
    ((Triage.ofDiagnostics options.strict response.errors).log options.quiet).map .message =
      logged options response := by
  rw [Triage.log_ofDiagnostics, logged]
  split <;> rfl

inductive Judges (options : BuildOptions) (sources : CanonicalSources) (version : Version)
    (c : Compiler σ) (response : Response) (w : σ) :
    Except Failure CompiledContracts → List Contact → List Note → σ → Prop
  | rejected (condemned : ∃ d ∈ response.errors, d.Condemns options.strict) :
      Judges options sources version c response w
        (.error (.rejected (",".intercalate
          ((response.errors.filter (Condemns options.strict)).map formatted))))
        [] (logged options response) w
  | unnamed {f : Failure} {said : List Note} {w' : σ}
      (passed : ∀ d ∈ response.errors, ¬ d.Condemns options.strict)
      (named : c.version.run w = ⟨.error f, said, w'⟩) :
      Judges options sources version c response w (.error f) [.named]
        (logged options response ++ .event (.finished version response) :: said) w'
  | assembled {name : String} {said : List Note} {w' : σ}
      (passed : ∀ d ∈ response.errors, ¬ d.Condemns options.strict)
      (named : c.version.run w = ⟨.ok name, said, w'⟩) :
      Judges options sources version c response w (assemble response sources (.solc name)) [.named]
        (logged options response ++ .event (.finished version response) :: said) w'

theorem exists_judges (options : BuildOptions) (sources : CanonicalSources) (version : Version)
    (c : Compiler σ) (response : Response) (w : σ) : ∃ result contacts said w',
      Judges options sources version c response w result contacts said w' := by
  by_cases condemned : ∃ d ∈ response.errors, d.Condemns options.strict
  · exact ⟨_, _, _, _, .rejected condemned⟩
  · push Not at condemned
    rcases named : c.version.run w with ⟨f | name, said, w'⟩
    · exact ⟨_, _, _, _, .unnamed condemned named⟩
    · exact ⟨_, _, _, _, .assembled condemned named⟩

theorem version_watched {c : Compiler σ} {w w' : σ} {result : Except Failure String}
    {said : List Note} (named : c.version.run w = ⟨result, said, w'⟩) (before : List Contact) :
    c.watched.version.run ⟨w, before⟩ = ⟨result, said, ⟨w', before ++ [.named]⟩⟩ := by
  simp only [Compiler.watched, Job.watch, named]

namespace Judges

variable {options : BuildOptions} {sources : CanonicalSources} {version : Version} {c : Compiler σ}
  {response : Response} {w w' : σ} {result : Except Failure CompiledContracts}
  {contacts : List Contact} {said : List Note}

theorem watched (judges : Judges options sources version c response w result contacts said w')
    (before : List Contact) :
    Judges options sources version c.watched response ⟨w, before⟩ result contacts said
      ⟨w', before ++ contacts⟩ := by
  cases judges with
  | rejected condemned =>
    rw [List.append_nil]
    exact .rejected condemned
  | unnamed passed named => exact .unnamed passed (version_watched named before)
  | assembled passed named => exact .assembled passed (version_watched named before)

theorem calls (judges : Judges options sources version c response w result contacts said w') :
    contacts.filter Contact.isCall = [] := by
  cases judges <;> rfl

end Judges

section

variable {config : Config} {options : BuildOptions} {resolver : Resolver σ} {sources : SourceSet}
  {w w₁ w₂ w₃ : σ} {version : Version} {c : Compiler σ} {response : Response}
  {said said' said'' : List Note} {f : Failure}

theorem watched_of_failed (failed : (resolver version).run w = ⟨.error f, said, w₁⟩)
    (before : List Contact) : (resolver.watched version).run ⟨w, before⟩ =
      ⟨.error f, said, ⟨w₁, before ++ [.resolved version]⟩⟩ := by
  simp only [Resolver.watched, Job.watch, Job.run_bind, failed]

theorem watched_of_resolved (resolved : (resolver version).run w = ⟨.ok c, said, w₁⟩)
    (before : List Contact) : (resolver.watched version).run ⟨w, before⟩ =
      ⟨.ok c.watched, said, ⟨w₁, before ++ [.resolved version]⟩⟩ := by
  simp only [Resolver.watched, Job.watch, Job.run_bind, resolved, Job.run_pure, List.append_nil]

theorem isEmpty_ofSources_eq_false (filled : sources ≠ .empty) :
    (CanonicalSources.ofSources sources).isEmpty = false := by
  rwa [← Bool.not_eq_true, CanonicalSources.isEmpty_ofSources_iff]

theorem compile_of_judged {result : Except Failure CompiledContracts} {contacts : List Contact}
    (filled : sources ≠ .empty)
    (resolved : (resolve config resolver).run w = ⟨.ok (version, c), said, w₁⟩)
    (invoked : (c.invoke (.ofSources (.ofSources sources) config) none).run w₁ =
      ⟨.ok response, said', w₂⟩)
    (judges : Judges options (.ofSources sources) version c response w₂ result contacts said'' w₃) :
    (compile config options resolver sources).run w =
      ⟨result, said ++ .event (.spawned version (.ofSources (.ofSources sources) config)) ::
        (said' ++ said''), w₃⟩ := by
  have filled := isEmpty_ofSources_eq_false filled
  have verdict : (Triage.ofDiagnostics options.strict response.errors).verdict = _ :=
    Triage.verdict_ofDiagnostics
  cases judges with
  | rejected condemned =>
    rw [if_pos condemned] at verdict
    rw [compile_of_rejected filled resolved invoked verdict, log_eq_logged]
  | unnamed passed named | assembled passed named =>
    have none : ¬ ∃ d ∈ response.errors, d.Condemns options.strict := by simpa using passed
    rw [if_neg none] at verdict
    rw [compile_of_passed filled resolved invoked verdict, log_eq_logged, named]
    rfl

end

/-- How a build ends, with what is asked for on its way. -/
inductive Course (config : Config) (options : BuildOptions) (resolver : Resolver σ)
    (sources : SourceSet) (w : σ) :
    Job.Outcome σ CompiledContracts → List Contact → Prop
  | empty (none : sources = .empty) :
      Course config options resolver sources w ⟨.ok .empty, [], w⟩ []
  | unsupported {f : Failure} (filled : sources ≠ .empty)
      (unknown : config.compilerVersion = .error f) :
      Course config options resolver sources w ⟨.error f, [], w⟩ []
  | unresolved {version : Version} {f : Failure} {said : List Note} {w₁ : σ}
      (filled : sources ≠ .empty) (supported : config.compilerVersion = .ok version)
      (failed : (resolver version).run w = ⟨.error f, said, w₁⟩) :
      Course config options resolver sources w ⟨.error f, said, w₁⟩ [.resolved version]
  | unanswered {version : Version} {c : Compiler σ} {f : Failure} {contacts : List Contact}
      {said said' : List Note} {w₁ w₂ : σ}
      (filled : sources ≠ .empty) (supported : config.compilerVersion = .ok version)
      (resolved : (resolver version).run w = ⟨.ok c, said, w₁⟩)
      (answers : Answers c (Request.ofSources (.ofSources sources) config).text w₁ (.error f)
        contacts said' w₂) :
      Course config options resolver sources w
        ⟨.error f, said ++ .event (.spawned version (.ofSources (.ofSources sources) config)) ::
          said', w₂⟩
        (.resolved version :: contacts)
  | answered {version : Version} {c : Compiler σ} {response : Response}
      {result : Except Failure CompiledContracts} {contacts contacts' : List Contact}
      {said said' said'' : List Note} {w₁ w₂ w₃ : σ}
      (filled : sources ≠ .empty) (supported : config.compilerVersion = .ok version)
      (resolved : (resolver version).run w = ⟨.ok c, said, w₁⟩)
      (answers : Answers c (Request.ofSources (.ofSources sources) config).text w₁ (.ok response)
        contacts said' w₂)
      (judges : Judges options (.ofSources sources) version c response w₂ result contacts' said''
        w₃) :
      Course config options resolver sources w
        ⟨result, said ++ .event (.spawned version (.ofSources (.ofSources sources) config)) ::
          (said' ++ said''), w₃⟩
        (.resolved version :: (contacts ++ contacts'))

variable {config : Config} {options : BuildOptions} {resolver : Resolver σ} {sources : SourceSet}
  {w : σ} {o : Job.Outcome σ CompiledContracts} {contacts : List Contact}

theorem exists_course (config : Config) (options : BuildOptions) (resolver : Resolver σ)
    (sources : SourceSet) (w : σ) :
    ∃ o contacts, Course config options resolver sources w o contacts := by
  by_cases filled : sources = .empty
  · exact ⟨_, _, .empty filled⟩
  cases supported : config.compilerVersion with
  | error f => exact ⟨_, _, .unsupported filled supported⟩
  | ok version =>
    rcases resolved : (resolver version).run w with ⟨f | c, said, w₁⟩
    · exact ⟨_, _, .unresolved filled supported resolved⟩
    obtain ⟨result, contacts, said', w₂, answers⟩ :=
      exists_answers c (Request.ofSources (.ofSources sources) config).text w₁
    cases result with
    | error f => exact ⟨_, _, .unanswered filled supported resolved answers⟩
    | ok response =>
      obtain ⟨result, contacts', said'', w₃, judges⟩ :=
        exists_judges options (.ofSources sources) version c response w₂
      exact ⟨_, _, .answered filled supported resolved answers judges⟩

namespace Course

theorem run (course : Course config options resolver sources w o contacts) :
    (compile config options resolver sources).run w = o := by
  cases course with
  | empty none => exact compile_of_empty (CanonicalSources.isEmpty_ofSources_iff.2 none)
  | unsupported filled unknown =>
    exact compile_of_unresolved (isEmpty_ofSources_eq_false filled) (resolve_of_unsupported unknown)
  | unresolved filled supported failed =>
    exact compile_of_unresolved (isEmpty_ofSources_eq_false filled)
      (resolve_of_failed supported failed)
  | unanswered filled supported resolved answers =>
    exact compile_of_unanswered (isEmpty_ofSources_eq_false filled)
      (resolve_of_resolved supported resolved) answers.invoke
  | answered filled supported resolved answers judges =>
    exact compile_of_judged filled (resolve_of_resolved supported resolved) answers.invoke judges

theorem watched (course : Course config options resolver sources w o contacts) :
    Course config options resolver.watched sources ⟨w, []⟩ ⟨o.result, o.notes, ⟨o.state, contacts⟩⟩
      contacts := by
  cases course with
  | empty none => exact .empty none
  | unsupported filled unknown => exact .unsupported filled unknown
  | unresolved filled supported failed =>
    exact .unresolved filled supported (watched_of_failed failed [])
  | unanswered filled supported resolved answers =>
    exact .unanswered filled supported (watched_of_resolved resolved []) (answers.watched _)
  | answered filled supported resolved answers judges =>
    exact .answered filled supported (watched_of_resolved resolved []) (answers.watched _)
      (judges.watched _)

theorem run_watched (course : Course config options resolver sources w o contacts) :
    (compile config options resolver.watched sources).run ⟨w, []⟩ =
      ⟨o.result, o.notes, ⟨o.state, contacts⟩⟩ :=
  course.watched.run

theorem calls (course : Course config options resolver sources w o contacts) :
    contacts.filter Contact.isCall = [] ∨ ∃ entry, contacts.filter Contact.isCall =
      [.called entry (Request.ofSources (.ofSources sources) config).text false] := by
  cases course with
  | empty | unsupported | unresolved => exact .inl rfl
  | unanswered _ _ _ answers => exact answers.calls
  | answered _ _ _ answers judges =>
    simp only [List.filter_cons, Contact.isCall, List.filter_append, judges.calls, List.append_nil]
    exact answers.calls

end Course

/-- A build takes its course and no other, and takes the same one if nobody keeps a record. -/
theorem compile_course {μ : Type} (config : Config) (options : BuildOptions) (resolver : Resolver σ)
    (sources : SourceSet) (w : σ) (setup : Registry.Setup) (host : Registry.Host μ σ)
    (hold : μ → Compiler (Registry.State μ × σ)) (v : Version) (s : Registry.State μ × σ) :
    let o := (compile config options resolver.watched sources).run ⟨w, []⟩
    let calls := o.state.contacts.filter Contact.isCall
    (∀ o' contacts, Course config options resolver sources w o' contacts ↔
      o' = ⟨o.result, o.notes, o.state.world⟩ ∧ contacts = o.state.contacts) ∧
    (compile config options resolver sources).run w = ⟨o.result, o.notes, o.state.world⟩ ∧
    (calls = [] ∨ ∃ entry, calls =
      [.called entry (Request.ofSources (.ofSources sources) config).text false]) ∧
    OnlyInstallations ((Registry.resolver setup host hold v).run s).notes := by
  obtain ⟨o, contacts, course⟩ := exists_course config options resolver sources w
  rw [course.run_watched]
  refine ⟨fun o' contacts' => ⟨fun other => ?_, ?_⟩, course.run, course.calls,
    Registry.resolver_notes hold v s⟩
  · have same := other.run_watched
    rw [course.run_watched, Job.Outcome.mk.injEq, Watched.mk.injEq] at same
    exact ⟨other.run.symm.trans course.run, same.2.2.2.symm⟩
  · rintro ⟨rfl, rfl⟩
    exact course

end Build
end ContractBuild
