import ContractBuild.Proofs.Imports.Exchange
import ContractBuild.Proofs.Imports.Segments

/-!
# A callback that refuses

When every import is answered with one error nothing is supplied, so the loop ends after one run,
and the response has this error wherever it reports a missing source that it was asked for.
-/

namespace ContractBuild.ImportLoop

variable {σ : Type} {reason path : String} {named : List String} {answers : ImportAnswers}

def refusing (reason : String) : Asked σ := fun _ s => (.error reason, s)

structure Refused (reason : String) (named : List String) (answers : ImportAnswers) : Prop where
  asked : ∀ path ∈ named, answers.contains path = true
  only : ∀ path answer, answers.find? path = some answer → answer = .error reason

theorem Refused.error?_of_mem (refused : Refused reason named answers) (mem : path ∈ named) :
    answers.error? path = some reason := by
  obtain ⟨answer, found⟩ := Option.isSome_iff_exists.1 (refused.asked path mem)
  rw [refused.only path answer found] at found
  rw [ImportAnswers.error?, found]

theorem Refused.eq_of_error? (refused : Refused reason named answers) {new : String}
    (told : answers.error? path = some new) : new = reason := by
  rw [ImportAnswers.error?] at told
  split at told
  · rename_i known found
    cases refused.only path _ found
    exact (Option.some.inj told).symm
  · cases told

theorem refused_empty (reason : String) : Refused reason [] .empty where
  asked _ mem := absurd mem List.not_mem_nil
  only _ _ found := by cases found

theorem Refused.insert (refused : Refused reason named answers) (path : String) :
    Refused reason (named ++ [path]) (answers.insert path (.error reason)) where
  asked path' mem := by
    by_cases eq : path' = path
    · rw [eq, SortedMap.contains, SortedMap.find?_insert_self]
      rfl
    · rw [SortedMap.contains, SortedMap.find?_insert_ne _ eq]
      refine refused.asked path' ((List.mem_append.1 mem).resolve_right fun mem => ?_)
      exact eq (List.mem_singleton.1 mem)
  only path' answer found := by
    by_cases eq : path' = path
    · rw [eq, SortedMap.find?_insert_self] at found
      exact (Option.some.inj found).symm
    · rw [SortedMap.find?_insert_ne _ eq] at found
      exact refused.only path' answer found

theorem ask_refusing (refused : Refused reason named answers) (path : String) (request : Json)
    (w : σ) : ∃ answers', (ask (refusing reason) path ⟨request, answers, false⟩).run w =
        ⟨.ok ⟨request, answers', false⟩, [], w⟩ ∧
      Refused reason (named ++ [path]) answers' := by
  by_cases known : answers.contains path = true
  · refine ⟨answers, ?_, fun path' mem => ?_, refused.only⟩
    · rw [ask, if_pos known]
      rfl
    · rcases List.mem_append.1 mem with mem | mem
      · exact refused.asked path' mem
      · rw [List.mem_singleton.1 mem]
        exact known
  · refine ⟨answers.insert path (.error reason), ?_, refused.insert path⟩
    rw [ask, if_neg known]
    rfl

theorem askAll_refusing (refused : Refused reason named answers) (paths : List String)
    (request : Json) (w : σ) : ∃ answers',
      (askAll (refusing reason) paths ⟨request, answers, false⟩).run w =
        ⟨.ok ⟨request, answers', false⟩, [], w⟩ ∧ Refused reason (named ++ paths) answers' := by
  induction paths generalizing named answers with
  | nil => exact ⟨answers, rfl, by rwa [List.append_nil]⟩
  | cons path paths ih =>
    obtain ⟨between, first, refused⟩ := ask_refusing refused path request w
    obtain ⟨last, later, refused⟩ := ih refused
    refine ⟨last, ?_, by rwa [List.append_assoc] at refused⟩
    rw [askAll, Job.run_bind_of_ok first]
    exact later

theorem settle_refusing {p : Program} {launch : Launcher σ} {request found : Json} {w w' : σ}
    (run : (response p launch request).run w = ⟨.ok found, [], w'⟩) (reason : String) (runs : Nat) :
    ∃ answers, (settle p launch (refusing reason) (runs + 1) request .empty).run w =
        ⟨.ok (Imports.withAnswers answers found).text, [], w'⟩ ∧
      Refused reason (Imports.missingSources found) answers := by
  obtain ⟨answers, asked, refused⟩ :=
    askAll_refusing (refused_empty reason) (Imports.missingSources found) request w'
  refine ⟨answers, ?_, by simpa using refused⟩
  rw [settle, Job.run_bind_of_ok run, Job.run_bind_of_ok asked]
  rfl

end ContractBuild.ImportLoop
