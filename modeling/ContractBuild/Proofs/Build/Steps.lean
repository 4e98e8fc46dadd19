import ContractBuild.Build

/-!
# How far a build goes

A build ends where the first thing fails: the version, the resolver, the call or the verdict on the
diagnostics. Each of these ends has one equation for the whole outcome.
-/

namespace ContractBuild.Build

variable {σ : Type} {config : Config} {options : BuildOptions} {resolver : Resolver σ}
  {sources : SourceSet} {w w₁ w₂ : σ} {version : Version} {c : Compiler σ} {response : Response}
  {said said' : List Note} {f : Failure} {messages : String}

theorem resolve_of_unsupported (unsupported : config.compilerVersion = .error f) :
    (resolve config resolver).run w = ⟨.error f, [], w⟩ := by
  simp only [resolve, unsupported, Job.run_bind, Job.ofExcept]

theorem resolve_of_failed (supported : config.compilerVersion = .ok version)
    (failed : (resolver version).run w = ⟨.error f, said, w₁⟩) :
    (resolve config resolver).run w = ⟨.error f, said, w₁⟩ := by
  simp only [resolve, supported, Job.run_bind, Job.ofExcept, failed, List.nil_append]

theorem resolve_of_resolved (supported : config.compilerVersion = .ok version)
    (resolved : (resolver version).run w = ⟨.ok c, said, w₁⟩) :
    (resolve config resolver).run w = ⟨.ok (version, c), said, w₁⟩ := by
  simp only [resolve, supported, Job.run_bind, Job.ofExcept, resolved, Job.run_pure,
    List.nil_append, List.append_nil]

theorem compile_of_empty (empty : (CanonicalSources.ofSources sources).isEmpty = true) :
    (compile config options resolver sources).run w = ⟨.ok .empty, [], w⟩ := by
  simp only [compile, empty, if_true, Job.run_pure]

section

variable (filled : (CanonicalSources.ofSources sources).isEmpty = false)
include filled

theorem compile_of_unresolved (resolved : (resolve config resolver).run w = ⟨.error f, said, w₁⟩) :
    (compile config options resolver sources).run w = ⟨.error f, said, w₁⟩ := by
  simp only [compile, filled, Bool.false_eq_true, if_false, Job.run_bind, resolved]

variable (resolved : (resolve config resolver).run w = ⟨.ok (version, c), said, w₁⟩)
include resolved

theorem compile_of_unanswered
    (invoked : (c.invoke (.ofSources (.ofSources sources) config) none).run w₁ =
      ⟨.error f, said', w₂⟩) :
    (compile config options resolver sources).run w =
      ⟨.error f, said ++ .event (.spawned version (.ofSources (.ofSources sources) config)) ::
        said', w₂⟩ := by
  simp only [compile, filled, Bool.false_eq_true, if_false, Job.run_bind, resolved, Job.report,
    Job.say, invoked, List.cons_append, List.nil_append]

variable (invoked : (c.invoke (.ofSources (.ofSources sources) config) none).run w₁ =
  ⟨.ok response, said', w₂⟩)
include invoked

theorem compile_of_rejected
    (verdict : (Triage.ofDiagnostics options.strict response.errors).verdict = some messages) :
    (compile config options resolver sources).run w =
      ⟨.error (.rejected messages),
        said ++ .event (.spawned version (.ofSources (.ofSources sources) config)) :: (said' ++
          ((Triage.ofDiagnostics options.strict response.errors).log options.quiet).map .message),
        w₂⟩ := by
  simp only [compile, filled, Bool.false_eq_true, if_false, Job.run_bind, resolved, Job.report,
    Job.say, invoked, Job.log, verdict, Job.fail, Job.ofExcept, List.cons_append,
    List.nil_append, List.append_nil]

theorem compile_of_passed
    (verdict : (Triage.ofDiagnostics options.strict response.errors).verdict = none) :
    (compile config options resolver sources).run w =
      ⟨(c.version.run w₂).result >>= fun name =>
          assemble response (.ofSources sources) (.solc name),
        said ++ .event (.spawned version (.ofSources (.ofSources sources) config)) :: (said' ++
          (((Triage.ofDiagnostics options.strict response.errors).log options.quiet).map .message ++
            .event (.finished version response) :: (c.version.run w₂).notes)),
        (c.version.run w₂).state⟩ := by
  simp only [compile, filled, Bool.false_eq_true, if_false, Job.run_bind, resolved, Job.report,
    Job.say, invoked, Job.log, verdict, Job.ofExcept, List.cons_append, List.nil_append]
  cases (c.version.run w₂).result with
  | error f => rfl
  | ok name => simp only [List.append_nil]; rfl

end

end ContractBuild.Build
