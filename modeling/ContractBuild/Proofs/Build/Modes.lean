import ContractBuild.Proofs.Build.Course
import ContractBuild.Proofs.Diagnostics.Rejection

/-!
# Strict, lenient and quiet builds

Two builds that differ only in whether they are quiet differ only in the log. A strict build that is
not rejected is the lenient build, and a rejected lenient build is rejected in strict mode too.
-/

namespace ContractBuild

variable {σ : Type}

def Note.event? : Note → Option Event
  | .event e => some e
  | .message _ => none

def Note.message? : Note → Option String
  | .event _ => none
  | .message text => some text

def events (notes : List Note) : List Event := notes.filterMap Note.event?

def messages (notes : List Note) : List String := notes.filterMap Note.message?

variable {notes : List Note}

@[simp] theorem events_append (notes notes' : List Note) :
    events (notes ++ notes') = events notes ++ events notes' :=
  List.filterMap_append

@[simp] theorem messages_append (notes notes' : List Note) :
    messages (notes ++ notes') = messages notes ++ messages notes' :=
  List.filterMap_append

@[simp] theorem events_cons_event (e : Event) (notes : List Note) :
    events (.event e :: notes) = e :: events notes := rfl

@[simp] theorem messages_cons_event (e : Event) (notes : List Note) :
    messages (.event e :: notes) = messages notes := rfl

@[simp] theorem events_map_message (texts : List String) :
    events (texts.map .message) = [] := by
  rw [events, List.filterMap_eq_nil_iff]
  intro note mem
  obtain ⟨_, -, rfl⟩ := List.mem_map.1 mem
  rfl

theorem OnlyInstallations.messages_eq_nil (about : OnlyInstallations notes) :
    messages notes = [] := by
  rw [messages, List.filterMap_eq_nil_iff]
  intro note mem
  cases note with
  | event => rfl
  | message => exact (about _ mem).elim

structure Compiler.Mute (c : Compiler σ) : Prop where
  call : ∀ entry input w, messages ((c.call entry input none).run w).notes = []
  version : ∀ w, messages (c.version.run w).notes = []

structure Build.Resolver.Mute (resolver : Resolver σ) : Prop where
  resolve : ∀ version w, messages ((resolver version).run w).notes = []
  compiler : ∀ version w c, ((resolver version).run w).result = .ok c → c.Mute

section

variable {c : Compiler σ} {resolver : Build.Resolver σ} {version : Version} {w w' : σ}
  {said : List Note}

theorem Build.always_mute (mute : c.Mute) : (always c).Mute where
  resolve _ _ := rfl
  compiler _ _ _ same := Except.ok.inj same ▸ mute

theorem Registry.resolver_mute {μ : Type} {setup : Setup} {host : Host μ σ}
    {hold : μ → Compiler (State μ × σ)} (mute : ∀ m, (hold m).Mute) :
    (Registry.resolver setup host hold).Mute where
  resolve version w := (resolver_notes hold version w).messages_eq_nil
  compiler version w c held := by
    rw [resolver_result] at held
    cases answered : (get setup host version w.1 w.2).1.getD (.error .unsettled) with
    | error f =>
      rw [answered] at held
      cases held
    | ok m =>
      rw [answered] at held
      exact Except.ok.inj held ▸ mute m

theorem Compiler.Mute.said_of_call (mute : c.Mute) {entry : EntryPoint} {input : String}
    {result : Except Failure String}
    (called : (c.call entry input none).run w = ⟨result, said, w'⟩) : messages said = [] := by
  have silent := mute.call entry input w
  rwa [called] at silent

theorem Compiler.Mute.said_of_version (mute : c.Mute) {result : Except Failure String}
    (named : c.version.run w = ⟨result, said, w'⟩) : messages said = [] := by
  have silent := mute.version w
  rwa [named] at silent

theorem Build.Resolver.Mute.said_of_resolve (mute : resolver.Mute)
    {result : Except Failure (Compiler σ)}
    (ran : (resolver version).run w = ⟨result, said, w'⟩) : messages said = [] := by
  have silent := mute.resolve version w
  rwa [ran] at silent

theorem Build.Resolver.Mute.of_resolved (mute : resolver.Mute)
    (resolved : (resolver version).run w = ⟨.ok c, said, w'⟩) : c.Mute :=
  mute.compiler version w c (by rw [resolved])

end

namespace Build

open Diagnostic

variable {config : Config} {strict quiet : Bool} {options : BuildOptions} {resolver : Resolver σ}
  {sources : SourceSet} {w w' : σ} {o : Job.Outcome σ CompiledContracts} {contacts : List Contact}
  {version : Version} {c : Compiler σ} {response : Response} {canonical : CanonicalSources}
  {result : Except Failure CompiledContracts} {said : List Note}

theorem logged_eq_nil (silent : options.strict = true ∨ options.quiet = true) :
    logged options response = [] := by
  rw [logged, if_neg]
  rintro ⟨lenient, loud, -⟩
  rcases silent with strict | quiet
  · rw [lenient] at strict
    cases strict
  · rw [loud] at quiet
    cases quiet

theorem events_logged (options : BuildOptions) (response : Response) :
    events (logged options response) = [] := by
  rw [logged]
  split
  · exact events_map_message _
  · rfl

theorem Judges.hush
    (judges : Judges ⟨strict, quiet⟩ canonical version c response w result contacts said w')
    (quiet' : Bool) : ∃ said',
      Judges ⟨strict, quiet'⟩ canonical version c response w result contacts said' w' ∧
        events said' = events said := by
  cases judges with
  | rejected condemned =>
    exact ⟨_, .rejected condemned, by rw [events_logged, events_logged]⟩
  | unnamed passed named =>
    exact ⟨_, .unnamed passed named, by simp only [events_append, events_logged]⟩
  | assembled passed named =>
    exact ⟨_, .assembled passed named, by simp only [events_append, events_logged]⟩

theorem Course.hush (course : Course config ⟨strict, quiet⟩ resolver sources w o contacts)
    (quiet' : Bool) : ∃ o', Course config ⟨strict, quiet'⟩ resolver sources w o' contacts ∧
      o'.result = o.result ∧ o'.state = o.state ∧ events o'.notes = events o.notes := by
  cases course with
  | empty none => exact ⟨_, .empty none, rfl, rfl, rfl⟩
  | unsupported filled unknown => exact ⟨_, .unsupported filled unknown, rfl, rfl, rfl⟩
  | unresolved filled supported failed =>
    exact ⟨_, .unresolved filled supported failed, rfl, rfl, rfl⟩
  | unanswered filled supported resolved answers =>
    exact ⟨_, .unanswered filled supported resolved answers, rfl, rfl, rfl⟩
  | answered filled supported resolved answers judges =>
    obtain ⟨_, judges', same⟩ := judges.hush quiet'
    refine ⟨_, .answered filled supported resolved answers judges', rfl, rfl, ?_⟩
    simp only [events_append, events_cons_event, same]

theorem Answers.messages_eq_nil {input : String} {result : Except Failure Response}
    (answers : Answers c input w result contacts said w') (mute : c.Mute) : messages said = [] := by
  cases answers with
  | noEntryPoint => rfl
  | failed _ called | unreadable _ called | read _ called => exact mute.said_of_call called

theorem Judges.messages_eq_nil
    (judges : Judges options canonical version c response w result contacts said w') (mute : c.Mute)
    (silent : options.strict = true ∨ options.quiet = true) : messages said = [] := by
  cases judges with
  | rejected =>
    rw [logged_eq_nil silent]
    rfl
  | unnamed _ named | assembled _ named =>
    rw [logged_eq_nil silent, List.nil_append, messages_cons_event, mute.said_of_version named]

theorem Course.messages_eq_nil (course : Course config options resolver sources w o contacts)
    (mute : resolver.Mute) (silent : options.strict = true ∨ options.quiet = true) :
    messages o.notes = [] := by
  cases course with
  | empty | unsupported => rfl
  | unresolved _ _ failed => exact mute.said_of_resolve failed
  | unanswered _ _ resolved answers =>
    have asked := answers.messages_eq_nil (mute.of_resolved resolved)
    simp only [messages_append, messages_cons_event, mute.said_of_resolve resolved, asked,
      List.append_nil]
  | answered _ _ resolved answers judges =>
    have asked := answers.messages_eq_nil (mute.of_resolved resolved)
    have judged := judges.messages_eq_nil (mute.of_resolved resolved) silent
    simp only [messages_append, messages_cons_event, mute.said_of_resolve resolved, asked,
      judged, List.append_nil]

theorem logged_of_strict_passed (passed : ∀ d ∈ response.errors, ¬ d.Condemns true) :
    logged options response = [] := by
  rw [logged, if_neg]
  rintro ⟨-, -, d, mem, warns⟩
  exact passed d mem (condemns_strict_iff.2 (.inr warns))

theorem Judges.relax
    (judges : Judges ⟨true, quiet⟩ canonical version c response w result contacts said w')
    (accepted : ∀ messages, result ≠ .error (.rejected messages)) :
    Judges ⟨false, quiet⟩ canonical version c response w result contacts said w' := by
  have lenient (passed : ∀ d ∈ response.errors, ¬ d.Condemns true) :
      ∀ d ∈ response.errors, ¬ d.Condemns false :=
    fun d mem condemns => passed d mem (condemns_strict_iff.2 (.inl condemns))
  cases judges with
  | rejected => exact absurd rfl (accepted _)
  | unnamed passed named =>
    rw [logged_of_strict_passed passed, ← logged_of_strict_passed passed]
    exact .unnamed (lenient passed) named
  | assembled passed named =>
    rw [logged_of_strict_passed passed, ← logged_of_strict_passed passed]
    exact .assembled (lenient passed) named

theorem Course.relax (course : Course config ⟨true, quiet⟩ resolver sources w o contacts)
    (accepted : ∀ messages, o.result ≠ .error (.rejected messages)) :
    Course config ⟨false, quiet⟩ resolver sources w o contacts := by
  cases course with
  | empty none => exact .empty none
  | unsupported filled unknown => exact .unsupported filled unknown
  | unresolved filled supported failed => exact .unresolved filled supported failed
  | unanswered filled supported resolved answers =>
    exact .unanswered filled supported resolved answers
  | answered filled supported resolved answers judges =>
    exact .answered filled supported resolved answers (judges.relax accepted)

section

variable (config : Config) (resolver : Resolver σ) (sources : SourceSet) (w : σ)

theorem run_quiet (strict : Bool) :
    ((compile config ⟨strict, true⟩ resolver sources).run w).result =
      ((compile config ⟨strict, false⟩ resolver sources).run w).result ∧
    events ((compile config ⟨strict, true⟩ resolver sources).run w).notes =
      events ((compile config ⟨strict, false⟩ resolver sources).run w).notes := by
  obtain ⟨o, contacts, course⟩ := exists_course config ⟨strict, false⟩ resolver sources w
  obtain ⟨o', course', result, -, same⟩ := course.hush true
  rw [course.run, course'.run]
  exact ⟨result, same⟩

theorem messages_of_silent (mute : resolver.Mute)
    (silent : options.strict = true ∨ options.quiet = true) :
    messages ((compile config options resolver sources).run w).notes = [] := by
  obtain ⟨o, contacts, course⟩ := exists_course config options resolver sources w
  rw [course.run]
  exact course.messages_eq_nil mute silent

theorem run_lenient
    (accepted : ∀ text, ((compile config ⟨true, quiet⟩ resolver sources).run w).result ≠
      .error (.rejected text)) :
    (compile config ⟨false, quiet⟩ resolver sources).run w =
      (compile config ⟨true, quiet⟩ resolver sources).run w := by
  obtain ⟨o, contacts, course⟩ := exists_course config ⟨true, quiet⟩ resolver sources w
  rw [course.run] at accepted ⊢
  exact (course.relax accepted).run

theorem strict_rejected_of_lenient {text : String}
    (rejected : ((compile config ⟨false, quiet⟩ resolver sources).run w).result =
      .error (.rejected text)) :
    ∃ text', ((compile config ⟨true, quiet⟩ resolver sources).run w).result =
      .error (.rejected text') := by
  by_contra accepted
  push Not at accepted
  rw [run_lenient config resolver sources w accepted] at rejected
  exact accepted text rejected

end

theorem modes_change_no_more (config : Config) (resolver : Resolver σ) (sources : SourceSet)
    (w : σ) :
    let run (strict quiet : Bool) := (compile config ⟨strict, quiet⟩ resolver sources).run w
    (∀ strict, (run strict true).result = (run strict false).result ∧
      events (run strict true).notes = events (run strict false).notes ∧
      (resolver.Mute → messages (run strict true).notes = [])) ∧
    (∀ quiet, (∀ text, (run true quiet).result ≠ .error (.rejected text)) →
      run false quiet = run true quiet ∧
        (resolver.Mute → messages (run false quiet).notes = [])) ∧
    (∀ quiet text, (run false quiet).result = .error (.rejected text) →
      ∃ text', (run true quiet).result = .error (.rejected text')) ∧
    ∀ ds, Merged (Triage.ofDiagnostics false ds).fatal (Triage.ofDiagnostics false ds).warnings
      (Triage.ofDiagnostics true ds).fatal := by
  intro run
  refine ⟨fun strict => ?_, fun quiet accepted => ?_, fun quiet text rejected => ?_,
    Triage.merged_fatal⟩
  · obtain ⟨result, same⟩ := run_quiet config resolver sources w strict
    exact ⟨result, same, fun mute => messages_of_silent config resolver sources w mute (.inr rfl)⟩
  · have same : run false quiet = run true quiet := run_lenient config resolver sources w accepted
    refine ⟨same, fun mute => ?_⟩
    rw [same]
    exact messages_of_silent config resolver sources w mute (.inl rfl)
  · exact strict_rejected_of_lenient config resolver sources w rejected

theorem answering_mute (ds : List Diagnostic) : (answering ds).Mute :=
  ⟨fun _ _ _ => rfl, fun _ => rfl⟩

theorem result_answering {ds : List Diagnostic} (brief : ∀ d ∈ ds, d.IsBrief) :
    ((compile .default options (always (answering ds)) oneSource).run ()).result =
      match (Triage.ofDiagnostics options.strict ds).verdict with
      | some messages => .error (.rejected messages)
      | none => assemble ⟨ds, .empty, .empty⟩ (.ofSources oneSource) (.solc "0.5.4") :=
  compile_result rfl (resolve_always compilerVersion_default) (invoke_answering brief _ _)

def remarks : List Diagnostic :=
  [.brief .info "Unused x." "1:1: Unused x.", .brief .warning advisory advisory]

def complaints : List Diagnostic := [.brief .warning "Unused x." "1:1: Unused x.", plainError]

theorem remarks_accepted (text : String) :
    ((compile .default ⟨true, false⟩ (always (answering remarks)) oneSource).run ()).result ≠
      .error (.rejected text) := by
  have none : ¬ ∃ d ∈ remarks, d.Condemns true := by
    simp [remarks, Condemns, brief, HoldsAdvisory]
  rw [result_answering (by simp [remarks, isBrief_brief]), Triage.verdict_ofDiagnostics,
    if_neg none]
  exact assemble_ne_rejected _ _ _ _

theorem complaints_rejected : ∃ text,
    ((compile .default ⟨false, false⟩ (always (answering complaints)) oneSource).run ()).result =
      .error (.rejected text) := by
  have condemned : ∃ d ∈ complaints, d.Condemns false :=
    ⟨plainError, by simp [complaints], .inl rfl, plainError_not_holdsAdvisory⟩
  rw [result_answering (by simp [complaints, plainError, isBrief_brief]),
    Triage.verdict_ofDiagnostics, if_pos condemned]
  exact ⟨_, rfl⟩

theorem modes_change_no_more_mixed :
    let run (ds : List Diagnostic) (strict quiet : Bool) :=
      (compile .default ⟨strict, quiet⟩ (always (answering ds)) oneSource).run ()
    messages (run complaints false true).notes = [] ∧
    run remarks false false = run remarks true false ∧
    messages (run remarks false false).notes = [] ∧
    ∃ text, (run complaints true false).result = .error (.rejected text) := by
  obtain ⟨quiet, -, stricter, -⟩ :=
    modes_change_no_more .default (always (answering complaints)) oneSource ()
  obtain ⟨-, relaxed, -, -⟩ :=
    modes_change_no_more .default (always (answering remarks)) oneSource ()
  obtain ⟨same, unlogged⟩ := relaxed false remarks_accepted
  obtain ⟨text, rejected⟩ := complaints_rejected
  exact ⟨(quiet false).2.2 (always_mute (answering_mute _)), same,
    unlogged (always_mute (answering_mute _)), stricter false text rejected⟩

end Build
end ContractBuild
