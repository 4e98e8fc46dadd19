import ContractBuild.Proofs.Imports.Exchange
import ContractBuild.Proofs.Imports.Rewording
import ContractBuild.Proofs.Imports.Supply
import Mathlib.Data.List.Induction

/-!
# The rounds of an import loop

A round runs the program, asks for what its response reports missing, and ends the loop if nothing
was supplied. Between two questions the request is the first one with all that was supplied so far,
the answers are those in the log, and the paths asked for are the reported ones without repetitions.
A question keeps this, so a round does, and so does a run of the loop. Every round but the last
supplies a path that was not supplied before, which bounds the number of runs without any
assumption on the program.
-/

namespace ContractBuild.ImportLoop
open Imports

variable {σ : Type} {p : Program} {launch : Launcher σ} {imports : Asked σ}
  {members sources : List (String × Json)} {log : Log} {named : List String} {r : Round} {w : σ}

theorem eraseDups_concat (named : List String) (path : String) :
    (named ++ [path]).eraseDups =
      if path ∈ named then named.eraseDups else named.eraseDups ++ [path] := by
  rw [List.eraseDups_append]
  split <;> rename_i known <;> simp [List.removeAll, known, List.eraseDups_cons]

theorem nodup_eraseDups (named : List String) : named.eraseDups.Nodup := by
  induction named using List.reverseRecOn with
  | nil => exact .nil
  | append_singleton named path ih =>
    rw [eraseDups_concat]
    split
    · exact ih
    · rename_i fresh
      refine List.nodup_append.2 ⟨ih, List.nodup_cons.2 ⟨List.not_mem_nil, .nil⟩, ?_⟩
      intro known mem path' mem' eq
      obtain rfl := List.mem_singleton.1 mem'
      exact fresh (List.mem_eraseDups.1 (eq ▸ mem))

/-- What was written down is what a program or a callback answered. -/
def Exchange.Genuine (launch : Launcher σ) (imports : Asked σ) : Exchange → Prop
  | ran arguments input result => ∃ w, result = (launch arguments input w).1
  | asked path answer => ∃ w, answer = (imports path w).1

/-- The state of the loop after `named` was reported so far. -/
structure Tracks (members sources : List (String × Json)) (log : Log) (named : List String)
    (r : Round) : Prop where
  request : r.request = requestWith members sources log.supplied
  answers : ∀ path answer, r.answers.find? path = some answer ↔ .asked path answer ∈ log
  paths : log.paths = named.eraseDups

def Questions (imports : Asked σ) (new : Log) : Prop :=
  ∀ e ∈ new, ∃ path w, e = .asked path (imports path w).1

theorem Questions.runs {new : Log} (questions : Questions imports new) : new.runs = 0 := by
  apply List.countP_eq_zero.2
  intro e mem
  obtain ⟨path, w, rfl⟩ := questions e mem
  exact Bool.false_ne_true

theorem Questions.responses {new : Log} (questions : Questions imports new) :
    new.responses = [] := by
  apply List.filterMap_eq_nil_iff.2
  intro e mem
  obtain ⟨path, w, rfl⟩ := questions e mem
  rfl

theorem Questions.genuine {new : Log} (questions : Questions imports new) :
    ∀ e ∈ new, e.Genuine launch imports := by
  intro e mem
  obtain ⟨path, w, rfl⟩ := questions e mem
  exact ⟨w, rfl⟩

structure Asks (imports : Asked σ) (members sources : List (String × Json)) (log new : Log)
    (named : List String) (r r' : Round) : Prop where
  questions : Questions imports new
  tracks : Tracks members sources (log ++ new) named r'
  supplied : r'.supplied = true ↔ r.supplied = true ∨ new.supplied ≠ []

theorem Tracks.contains_iff (tracks : Tracks members sources log named r) (path : String) :
    r.answers.contains path = true ↔ path ∈ named := by
  rw [← List.mem_eraseDups, ← tracks.paths, Log.mem_paths_iff, SortedMap.contains,
    Option.isSome_iff_exists]
  exact exists_congr fun answer => tracks.answers path answer

theorem Tracks.answer (tracks : Tracks members sources log named r) {path : String}
    (fresh : path ∉ named) (answer : ImportAnswer) {request : Json} (supplied : Bool)
    (grown : request = requestWith members sources
      (log ++ [Exchange.asked path answer]).supplied) :
    Tracks members sources (log ++ [Exchange.asked path answer]) (named ++ [path])
      ⟨request, r.answers.insert path answer, supplied⟩ := by
  refine ⟨grown, fun path' answer' => ?_, ?_⟩
  · rw [List.mem_append, List.mem_singleton, Exchange.asked.injEq]
    by_cases eq : path' = path
    · subst eq
      have absent : ¬ Exchange.asked path' answer' ∈ log := fun mem => by
        have known : path' ∈ log.paths := Log.mem_paths_iff.2 ⟨answer', mem⟩
        rw [tracks.paths, List.mem_eraseDups] at known
        exact fresh known
      simp only [SortedMap.find?_insert_self, Option.some.injEq, absent, true_and, false_or,
        eq_comm]
    · simp only [SortedMap.find?_insert_ne _ eq, tracks.answers, eq, false_and, or_false]
  · rw [Log.paths_append, tracks.paths, eraseDups_concat, if_neg fresh]
    rfl

theorem ask_spec (imports : Asked σ) (tracks : Tracks members sources log named r) (path : String)
    (w : σ) :
    ∃ new r' w', (ask (recordedImports imports) path r).run ⟨w, log⟩ =
        ⟨.ok r', [], ⟨w', log ++ new⟩⟩ ∧
      Asks imports members sources log new (named ++ [path]) r r' := by
  by_cases known : path ∈ named
  · refine ⟨[], r, w, ?_, fun e mem => absurd mem List.not_mem_nil, ?_, ?_⟩
    · rw [ask, if_pos ((tracks.contains_iff path).2 known), List.append_nil]
      rfl
    · rw [List.append_nil]
      refine ⟨tracks.request, tracks.answers, ?_⟩
      rw [tracks.paths, eraseDups_concat, if_pos known]
    · exact ⟨.inl, fun h => h.resolve_right fun ne => ne rfl⟩
  · have unknown : ¬ r.answers.contains path = true := mt (tracks.contains_iff path).1 known
    have one : Questions imports [.asked path (imports path w).1] := by
      intro e mem
      exact ⟨path, w, List.mem_singleton.1 mem⟩
    cases answer : (imports path w).1 with
    | contents text =>
      rw [answer] at one
      have request : addSource path text r.request = .ok (requestWith members sources
          (log ++ [Exchange.asked path (.contents text)]).supplied) := by
        rw [tracks.request, addSource_requestWith, Log.supplied_append]
        rfl
      refine ⟨[.asked path (.contents text)],
        ⟨requestWith members sources (log ++ [Exchange.asked path (.contents text)]).supplied,
          r.answers.insert path (.contents text), true⟩, (imports path w).2, ?_, one,
        tracks.answer known _ true rfl, ?_⟩
      · rw [ask, if_neg unknown]
        simp only [Job.run_bind, Job.ofState, recordedImports, answer, Job.ofExcept, request,
          Job.run_pure, List.append_nil]
      · exact ⟨fun _ => .inr (List.cons_ne_nil _ _), fun _ => rfl⟩
    | error reason =>
      rw [answer] at one
      refine ⟨[.asked path (.error reason)],
        { r with answers := r.answers.insert path (.error reason) }, (imports path w).2, ?_, one,
        tracks.answer known _ r.supplied ?_, ?_⟩
      · rw [ask, if_neg unknown]
        simp only [Job.run_bind, Job.ofState, recordedImports, answer, Job.run_pure,
          List.append_nil]
      · rw [tracks.request, Log.supplied_append]
        exact congrArg _ (List.append_nil _).symm
      · exact ⟨.inl, fun h => h.resolve_right fun ne => ne rfl⟩

theorem askAll_spec (imports : Asked σ) (tracks : Tracks members sources log named r)
    (paths : List String) (w : σ) :
    ∃ new r' w', (askAll (recordedImports imports) paths r).run ⟨w, log⟩ =
        ⟨.ok r', [], ⟨w', log ++ new⟩⟩ ∧
      Asks imports members sources log new (named ++ paths) r r' := by
  induction paths generalizing log named r w with
  | nil =>
    refine ⟨[], r, w, ?_, fun e mem => absurd mem List.not_mem_nil, ?_, ?_⟩
    · rw [List.append_nil]
      rfl
    · rwa [List.append_nil, List.append_nil]
    · exact ⟨.inl, fun h => h.resolve_right fun ne => ne rfl⟩
  | cons path rest ih =>
    obtain ⟨first, r₁, w₁, run, asks⟩ := ask_spec imports tracks path w
    obtain ⟨others, r₂, w₂, run', asks'⟩ := ih asks.tracks w₁
    refine ⟨first ++ others, r₂, w₂, ?_, fun e mem => ?_, ?_, ?_⟩
    · rw [askAll, Job.run_bind, run, ← List.append_assoc]
      simp only [run', List.append_nil]
    · exact (List.mem_append.1 mem).elim (asks.questions e) (asks'.questions e)
    · have tracks' := asks'.tracks
      rwa [List.append_assoc, List.append_assoc, List.singleton_append] at tracks'
    · simp only [asks'.supplied, asks.supplied, Log.supplied_append, or_assoc, ne_eq,
        List.append_eq_nil_iff, not_and_or]

/-- After `before`, a run gets the first request with what was supplied, and the callback is asked
for what a response reported. -/
def Exchange.Due (p : Program) (members sources : List (String × Json)) (before : Log) :
    Exchange → Prop
  | ran arguments input _ => arguments = p.arguments ++ ["--standard-json"] ∧
      input = some (Utf8.encodeChars (requestWith members sources before.supplied).chars)
  | asked path _ => path ∈ before.responses.flatMap missingSources

def AllDue (p : Program) (members sources : List (String × Json)) (log : Log) : Prop :=
  ∀ (before : Log) (e : Exchange), before ++ [e] <+: log → e.Due p members sources before

theorem AllDue.concat (due : AllDue p members sources log) {e : Exchange}
    (next : e.Due p members sources log) : AllDue p members sources (log ++ [e]) := by
  intro before e' start
  rcases List.prefix_concat_iff.1 start with eq | start
  · obtain ⟨rfl, rfl⟩ := List.append_singleton_inj.1 eq
    exact next
  · exact due before e' start

theorem AllDue.questions (due : AllDue p members sources log) {new : Log}
    (questions : Questions imports new)
    (reported : ∀ path ∈ new.paths, path ∈ log.responses.flatMap missingSources) :
    AllDue p members sources (log ++ new) := by
  induction new generalizing log with
  | nil => rwa [List.append_nil]
  | cons e new ih =>
    obtain ⟨path, w, rfl⟩ := questions e List.mem_cons_self
    have heard : Log.responses (log ++ [.asked path (imports path w).1]) = log.responses := by
      rw [Log.responses_append]
      exact List.append_nil _
    rw [List.append_cons]
    refine ih (due.concat (reported path List.mem_cons_self))
      (fun e mem => questions e (List.mem_cons_of_mem _ mem)) fun path mem => ?_
    rw [heard]
    exact reported path (List.mem_cons_of_mem _ mem)

def runOf (p : Program) (launch : Launcher σ) (request : Json) (w : σ) : Exchange × σ :=
  let arguments := p.arguments ++ ["--standard-json"]
  let input := some (Utf8.encodeChars request.chars)
  let (result, w) := launch arguments input w
  (.ran arguments input result, w)

theorem response_of_canStart (starts : p.canStart = true) (launch : Launcher σ) (request : Json)
    (w : σ) (log : Log) :
    ∃ outcome, (response p (recordedLauncher launch) request).run ⟨w, log⟩ =
        ⟨outcome, [], ⟨(runOf p launch request w).2, log ++ [(runOf p launch request w).1]⟩⟩ ∧
      outcome.toOption = (runOf p launch request w).1.response? ∧
      outcome ≠ .error .unsettled := by
  unfold response Program.compileOutput Program.run runOf
  simp only [if_pos starts, Job.run_bind, recordedLauncher, Job.ofExcept]
  cases (launch (p.arguments ++ ["--standard-json"])
      (some (Utf8.encodeChars request.chars)) w).1 with
  | error fault => exact ⟨_, rfl, rfl, nofun⟩
  | ok e =>
    by_cases success : e.success = true
    · cases parsed : Json.ofBytes? e.output with
      | error problem =>
        refine ⟨.error (.json problem), ?_, ?_, nofun⟩ <;>
          simp [Except.mapError, Program.outputOf, Exchange.response?, success, parsed,
            Except.toOption]
      | ok found =>
        refine ⟨.ok found, ?_, ?_, nofun⟩ <;>
          simp [Except.mapError, Program.outputOf, Exchange.response?, success, parsed,
            Except.toOption]
    · refine ⟨.error (.compiler (.exited (Utf8.decodeLossy e.complaint))), ?_, ?_, nofun⟩ <;>
        simp [Except.mapError, Program.outputOf, Exchange.response?, success, Except.toOption]

theorem response_of_not_canStart (stuck : ¬ p.canStart = true) (launch : Launcher σ)
    (request : Json) (w : σ) (log : Log) :
    (response p (recordedLauncher launch) request).run ⟨w, log⟩ =
      ⟨.error (.file .nul p.path), [], ⟨w, log⟩⟩ := by
  unfold response Program.compileOutput Program.run
  rw [if_neg stuck]
  rfl

structure Conducted (p : Program) (launch : Launcher σ) (imports : Asked σ)
    (members sources : List (String × Json)) (log : Log) : Prop where
  genuine : ∀ e ∈ log, e.Genuine launch imports
  paths : log.paths = (log.responses.flatMap missingSources).eraseDups
  due : AllDue p members sources log

/-- The text is that of `response`, which is the last response of the program with the errors that
were answered. Nothing was supplied after the program gave it, and all that the program reported in
it was asked for; all that `response` reports was, unless an error has a newline. -/
def Concluded (log : Log) (text : String) : Prop :=
  ∃ (before : Log) (e : Exchange) (after : Log) (found response : Json) (answers : ImportAnswers),
    log = before ++ e :: after ∧ e.response? = some found ∧ after.runs = 0 ∧ after.supplied = [] ∧
    (∀ path answer, answers.find? path = some answer ↔ .asked path answer ∈ log) ∧
    response = withAnswers answers found ∧ text = response.text ∧
    (∀ path ∈ missingSources found, path ∈ log.paths) ∧
    (log.OneLine → ∀ path ∈ missingSources response, path ∈ log.paths)

theorem Concluded.intro {before after : Log} {e : Exchange} {found : Json} {answers : ImportAnswers}
    (cut : log = before ++ e :: after) (last : e.response? = some found) (ran : after.runs = 0)
    (done : after.supplied = [])
    (given : ∀ path answer, answers.find? path = some answer ↔ .asked path answer ∈ log)
    (asked : ∀ path ∈ missingSources found, path ∈ log.paths) :
    Concluded log (withAnswers answers found).text := by
  refine ⟨before, e, after, found, withAnswers answers found, answers, cut, last, ran, done, given,
    rfl, rfl, asked, fun oneLine path named => asked path ?_⟩
  have lines : OneLine answers := fun path reason told => oneLine path reason ((given _ _).1 told)
  rwa [missingSources_withAnswers lines] at named

/-- What a run of the loop leaves behind that may run the program `runs` times after `log`. -/
structure Settles (p : Program) (launch : Launcher σ) (imports : Asked σ)
    (members sources : List (String × Json)) (runs : Nat) (log : Log)
    (o : Job.Outcome (Recorded σ) String) : Prop where
  conducted : Conducted p launch imports members sources o.state.log
  grows : log <+: o.state.log
  bound : o.state.log.runs ≤ 1 + o.state.log.supplied.length
  concluded : ∀ text, o.result = .ok text → Concluded o.state.log text
  unsettled : o.result = .error .unsettled →
    runs + log.supplied.length ≤ o.state.log.supplied.length
  failed : ∀ f, o.result = .error f → f ≠ .unsettled → p.canStart = true →
    ∃ e ∈ o.state.log, e.isRun = true ∧ e.response? = none
  started : p.canStart = true → 0 < runs → 0 < o.state.log.runs

theorem Tracks.runOf_due {request : Json} {answers : ImportAnswers} {supplied : Bool}
    (tracks : Tracks members sources log named ⟨request, answers, supplied⟩) :
    (runOf p launch request w).1.Due p members sources log :=
  ⟨rfl, by rw [← tracks.request]⟩

theorem runs_concat {e : Exchange} (ran : e.isRun = true) : (log ++ [e]).runs = log.runs + 1 := by
  rw [Log.runs_append]
  exact congrArg _ (List.countP_singleton.trans (if_pos ran))

theorem responses_concat (log : Log) (e : Exchange) :
    Log.responses (log ++ [e]) = log.responses ++ e.response?.toList := by
  rw [Log.responses_append]
  cases response : e.response? with
  | none => exact congrArg _ (List.filterMap_cons_none response)
  | some found => exact congrArg _ (List.filterMap_cons_some response)

theorem supplied_concat {e : Exchange} (ran : e.isRun = true) :
    (log ++ [e]).supplied = log.supplied := by
  rw [Log.supplied_append]
  cases e with
  | asked path answer => cases ran
  | ran arguments input result => exact List.append_nil _

theorem paths_concat {e : Exchange} (ran : e.isRun = true) : (log ++ [e]).paths = log.paths := by
  rw [Log.paths_append]
  cases e with
  | asked path answer => cases ran
  | ran arguments input result => exact List.append_nil _

theorem Tracks.run {e : Exchange} (tracks : Tracks members sources log named r)
    (ran : e.isRun = true) : Tracks members sources (log ++ [e]) named r := by
  refine ⟨?_, fun path answer => ?_, ?_⟩
  · rw [tracks.request, supplied_concat ran]
  · rw [tracks.answers, List.mem_append, List.mem_singleton]
    refine ⟨.inl, fun h => h.resolve_right fun eq => ?_⟩
    rw [← eq] at ran
    cases ran
  · rw [paths_concat ran, tracks.paths]

theorem Conducted.genuine_run (conducted : Conducted p launch imports members sources log)
    (request : Json) (w : σ) :
    ∀ e ∈ log ++ [(runOf p launch request w).1], e.Genuine launch imports := by
  intro e mem
  rcases List.mem_append.1 mem with mem | mem
  · exact conducted.genuine e mem
  · rw [List.mem_singleton.1 mem]
    exact ⟨w, rfl⟩

theorem Conducted.fail {request : Json} {answers : ImportAnswers} {supplied : Bool}
    (conducted : Conducted p launch imports members sources log)
    (tracks : Tracks members sources log named ⟨request, answers, supplied⟩)
    (silent : (runOf p launch request w).1.response? = none) :
    Conducted p launch imports members sources (log ++ [(runOf p launch request w).1]) := by
  refine ⟨conducted.genuine_run request w, ?_, conducted.due.concat tracks.runOf_due⟩
  rw [responses_concat, silent, Option.toList_none, List.append_nil, ← conducted.paths]
  exact paths_concat rfl

theorem Conducted.round {request found : Json} {answers : ImportAnswers} {supplied : Bool}
    {new : Log} {r : Round} (conducted : Conducted p launch imports members sources log)
    (tracks : Tracks members sources log named ⟨request, answers, supplied⟩)
    (response : (runOf p launch request w).1.response? = some found)
    (asks : Asks imports members sources (log ++ [(runOf p launch request w).1]) new
      (log.responses.flatMap missingSources ++ missingSources found)
      ⟨request, answers, supplied⟩ r) :
    Conducted p launch imports members sources (log ++ [(runOf p launch request w).1] ++ new) ∧
      Tracks members sources (log ++ [(runOf p launch request w).1] ++ new)
        ((log ++ [(runOf p launch request w).1] ++ new).responses.flatMap missingSources)
        ⟨r.request, r.answers, false⟩ := by
  have reported : (log ++ [(runOf p launch request w).1]).responses.flatMap missingSources =
      log.responses.flatMap missingSources ++ missingSources found := by
    rw [responses_concat, response, Option.toList_some, List.flatMap_append, List.flatMap_singleton]
  have reported' : (log ++ [(runOf p launch request w).1] ++ new).responses.flatMap missingSources =
      log.responses.flatMap missingSources ++ missingSources found := by
    rw [Log.responses_append, asks.questions.responses, List.append_nil, reported]
  rw [reported']
  refine ⟨⟨fun e mem => ?_, ?_, ?_⟩, asks.tracks.request, asks.tracks.answers, asks.tracks.paths⟩
  · rcases List.mem_append.1 mem with mem | mem
    · exact conducted.genuine_run request w e mem
    · exact asks.questions.genuine e mem
  · rw [reported', asks.tracks.paths]
  · refine (conducted.due.concat tracks.runOf_due).questions asks.questions fun path mem => ?_
    have all : path ∈ (log ++ [(runOf p launch request w).1] ++ new).paths := by
      rw [Log.paths_append]
      exact List.mem_append_right _ mem
    rw [asks.tracks.paths, List.mem_eraseDups] at all
    rwa [reported]

section

variable {runs : Nat} {request found : Json} {answers : ImportAnswers} {w' : σ} {new : Log}

theorem Settles.spent (conducted : Conducted p launch imports members sources log)
    (bound : log.runs ≤ log.supplied.length) :
    Settles p launch imports members sources 0 log ⟨.error .unsettled, [], ⟨w, log⟩⟩ := by
  refine ⟨conducted, List.prefix_refl _, Nat.le_trans bound (Nat.le_add_left _ _), nofun,
    fun _ => Nat.le_of_eq (Nat.zero_add _), fun f eq other => ?_, nofun⟩
  cases eq
  exact absurd rfl other

theorem Settles.stuck (conducted : Conducted p launch imports members sources log)
    (bound : log.runs ≤ log.supplied.length) (stuck : ¬ p.canStart = true) :
    Settles p launch imports members sources runs log
      ⟨.error (.file .nul p.path), [], ⟨w, log⟩⟩ :=
  ⟨conducted, List.prefix_refl _, Nat.le_trans bound (Nat.le_add_left _ _), nofun, nofun,
    fun _ _ _ can => absurd can stuck, fun can => absurd can stuck⟩

theorem Settles.fail {f : Failure} (conducted : Conducted p launch imports members sources log)
    (tracks : Tracks members sources log named ⟨request, answers, false⟩)
    (bound : log.runs ≤ log.supplied.length)
    (silent : (runOf p launch request w).1.response? = none) (other : f ≠ .unsettled) :
    Settles p launch imports members sources runs log
      ⟨.error f, [], ⟨w', log ++ [(runOf p launch request w).1]⟩⟩ := by
  have ran : (log ++ [(runOf p launch request w).1]).runs = log.runs + 1 := runs_concat rfl
  refine ⟨conducted.fail tracks silent, List.prefix_append _ _, ?_, nofun, fun eq => ?_,
    fun _ _ _ _ => ?_, fun _ _ => ?_⟩
  · dsimp only
    rw [ran, supplied_concat rfl]
    omega
  · exact absurd (Except.error.inj eq) other
  · exact ⟨_, List.mem_append_right _ List.mem_cons_self, rfl, silent⟩
  · dsimp only
    omega

theorem Settles.later {log' : Log} {o : Job.Outcome (Recorded σ) String}
    (rest : Settles p launch imports members sources runs log' o) (start : log <+: log')
    (ran : 0 < log'.runs) (more : log.supplied.length < log'.supplied.length) :
    Settles p launch imports members sources (runs + 1) log o := by
  refine ⟨rest.conducted, start.trans rest.grows, rest.bound, rest.concluded, fun eq => ?_,
    rest.failed, fun _ _ => ?_⟩
  · have most := rest.unsettled eq
    omega
  · obtain ⟨later, eq⟩ := rest.grows
    rw [← eq, Log.runs_append]
    omega

theorem Settles.last {r : Round}
    (conducted : Conducted p launch imports members sources
      (log ++ [(runOf p launch request w).1] ++ new))
    (bound : log.runs ≤ log.supplied.length)
    (response : (runOf p launch request w).1.response? = some found)
    (asks : Asks imports members sources (log ++ [(runOf p launch request w).1]) new
      (named ++ missingSources found) ⟨request, answers, false⟩ r)
    (done : new.supplied = []) :
    Settles p launch imports members sources runs log
      ⟨.ok (withAnswers r.answers found).text, [],
        ⟨w', log ++ [(runOf p launch request w).1] ++ new⟩⟩ := by
  have ran : (log ++ [(runOf p launch request w).1] ++ new).runs = log.runs + 1 := by
    rw [Log.runs_append, runs_concat rfl, asks.questions.runs]
  refine ⟨conducted, ?_, ?_, fun text eq => ?_, nofun, (fun _ eq => nomatch eq),
    fun _ _ => ?_⟩
  · exact (List.prefix_append _ _).trans (List.prefix_append _ _)
  · dsimp only
    rw [ran, Log.supplied_append, supplied_concat rfl, done, List.append_nil]
    omega
  · obtain rfl := Except.ok.inj eq
    refine .intro (List.append_assoc _ _ _) response asks.questions.runs done asks.tracks.answers
      fun path mem => ?_
    rw [asks.tracks.paths, List.mem_eraseDups]
    exact List.mem_append_right _ mem
  · dsimp only
    omega

end

theorem settle_spec (runs : Nat) {request : Json} {answers : ImportAnswers} (w : σ)
    (conducted : Conducted p launch imports members sources log)
    (tracks : Tracks members sources log (log.responses.flatMap missingSources)
      ⟨request, answers, false⟩)
    (bound : log.runs ≤ log.supplied.length) :
    Settles p launch imports members sources runs log
      ((settle p (recordedLauncher launch) (recordedImports imports) runs request answers).run
        ⟨w, log⟩) := by
  -- each run that is left goes on from a longer log, in which the round is still tracked
  induction runs generalizing log request answers w with
  | zero => exact .spent conducted bound
  | succ runs ih =>
    by_cases starts : p.canStart = true
    case neg =>
      rw [settle, Job.run_bind_of_error (response_of_not_canStart starts launch request w log)]
      exact .stuck conducted bound starts
    case pos =>
      obtain ⟨outcome, run, response, other⟩ :=
        response_of_canStart starts launch request w log
      cases outcome with
      | error f =>
        rw [settle, Job.run_bind_of_error run]
        exact .fail conducted tracks bound response.symm fun eq => other (eq ▸ rfl)
      | ok found =>
        obtain ⟨new, r, w', run', asks⟩ := askAll_spec imports
          (tracks.run (e := (runOf p launch request w).1) rfl) (missingSources found)
          (runOf p launch request w).2
        obtain ⟨conducted', tracks'⟩ := conducted.round tracks response.symm asks
        rw [settle, Job.run_bind_of_ok run, Job.run_bind_of_ok run']
        cases more : r.supplied with
        | true =>
          have grows : new.supplied ≠ [] :=
            (asks.supplied.1 more).resolve_left Bool.false_ne_true
          have least := List.length_pos_iff.2 grows
          have ran : (log ++ [(runOf p launch request w).1] ++ new).runs = log.runs + 1 := by
            rw [Log.runs_append, runs_concat rfl, asks.questions.runs]
          have supplied : (log ++ [(runOf p launch request w).1] ++ new).supplied.length =
              log.supplied.length + new.supplied.length := by
            rw [Log.supplied_append, supplied_concat rfl, List.length_append]
          rw [if_pos rfl]
          refine (ih w' conducted' tracks' (by omega)).later ?_ (by omega) (by omega)
          exact (List.prefix_append _ _).trans (List.prefix_append _ _)
        | false =>
          have done : new.supplied = [] := by
            by_contra grows
            rw [asks.supplied.2 (.inr grows)] at more
            cases more
          rw [if_neg Bool.false_ne_true]
          exact .last conducted' bound response.symm asks done

theorem exchanges_spec (p : Program) (launch : Launcher σ) (runs : Nat) (imports : Asked σ) (w : σ)
    {input : String} (request : Json.ofString? input = .ok (.object members))
    (own : Table.find? "sources" members = some (.object sources)) :
    ∃ o : Job.Outcome (Recorded σ) String,
      o.result = ((compile p launch runs input imports).run w).result ∧
      o.state.log = exchanges p launch runs input imports w ∧
      Settles p launch imports members sources runs [] o := by
  refine ⟨_, (mirrors_compile p runs input ⟨w, []⟩).1, rfl, ?_⟩
  have parsed : (Job.ofExcept ((Json.ofString? input).mapError Failure.json) :
      Job (Recorded σ) Json).run ⟨w, []⟩ = ⟨.ok (.object members), [], ⟨w, []⟩⟩ := by
    rw [request]
    rfl
  rw [compile, Job.run_bind_of_ok parsed]
  refine settle_spec runs w ⟨nofun, rfl, fun before e start => ?_⟩ ⟨?_, ?_, rfl⟩ (Nat.le_refl 0)
  · exact absurd (List.prefix_nil.1 start) (List.append_ne_nil_of_right_ne_nil _ nofun)
  · exact (requestWith_nil own).symm
  · exact fun path answer => ⟨nofun, nofun⟩

theorem Conducted.distinct (conducted : Conducted p launch imports members sources log) :
    log.paths.Nodup := by
  rw [conducted.paths]
  exact nodup_eraseDups _

theorem Conducted.supplied_distinct (conducted : Conducted p launch imports members sources log) :
    (log.supplied.map Prod.fst).Nodup :=
  conducted.distinct.sublist Log.supplied_sublist_paths

theorem Conducted.supplied_nil (conducted : Conducted p launch imports members sources log)
    (refuses : ∀ path w, ∃ reason, (imports path w).1 = .error reason) : log.supplied = [] := by
  apply List.filterMap_eq_nil_iff.2
  intro e mem
  cases e with
  | ran arguments input result => rfl
  | asked path answer =>
    obtain ⟨w, rfl⟩ := conducted.genuine _ mem
    obtain ⟨reason, eq⟩ := refuses path w
    rw [eq]
    rfl

/-- The callback is asked for every reported path once, in the order of the reports; every request
is the first one with what was supplied before; a response is given out when all that the program
reports missing in it was asked for and nothing was supplied for it; and the program runs at most
once more than paths were supplied, whatever it reports. -/
theorem compile_follows_reports (p : Program) (launch : Launcher σ) (runs : Nat)
    (imports : Asked σ) (w : σ) {input : String}
    (request : Json.ofString? input = .ok (.object members))
    (own : Table.find? "sources" members = some (.object sources)) :
    let log := exchanges p launch runs input imports w
    let result := ((compile p launch runs input imports).run w).result
    (log.paths = (log.responses.flatMap missingSources).eraseDups ∧ log.paths.Nodup ∧
        ∀ (before : Log) path answer, before ++ [.asked path answer] <+: log →
          path ∈ before.responses.flatMap missingSources) ∧
      (∀ (before : Log) arguments stdin exit, before ++ [.ran arguments stdin exit] <+: log →
        arguments = p.arguments ++ ["--standard-json"] ∧
        stdin = some (Utf8.encodeChars (requestWith members sources before.supplied).chars) ∧
        Supplies sources before.supplied (supply sources before.supplied)) ∧
      (∀ text, result = .ok text → Concluded log text) ∧
      (log.supplied.map Prod.fst).Nodup ∧ log.runs ≤ 1 + log.supplied.length ∧
      (result = .error .unsettled → runs ≤ log.supplied.length) ∧
      ((∀ path w, ∃ reason, (imports path w).1 = .error reason) → p.canStart = true → 0 < runs →
        log.runs = 1) := by
  intro log result
  obtain ⟨o, sameResult, sameLog, settles⟩ := exchanges_spec p launch runs imports w request own
  change o.state.log = log at sameLog
  change o.result = result at sameResult
  obtain ⟨conducted, -, bound, concluded, unsettled, -, started⟩ := settles
  rw [sameLog] at conducted bound concluded unsettled started
  rw [sameResult] at concluded unsettled
  refine ⟨⟨conducted.paths, conducted.distinct, fun before _ _ => conducted.due before _⟩, ?_,
    concluded, conducted.supplied_distinct, bound, unsettled, fun refuses can some => ?_⟩
  · intro before arguments stdin exit start
    obtain ⟨arguments', stdin'⟩ := conducted.due before _ start
    refine ⟨arguments', stdin', supplies_supply sources ?_⟩
    have part : before.supplied <+: log.supplied := by
      obtain ⟨later, eq⟩ := (List.prefix_append _ _).trans start
      exact ⟨Log.supplied later, by rw [← eq, Log.supplied_append]⟩
    exact conducted.supplied_distinct.sublist (part.sublist.map _)
  · have least := started can some
    rw [conducted.supplied_nil refuses] at bound
    exact Nat.le_antisymm bound least

def relaySources : List (String × Json) := [("a.sol", sourceOf "import \"b.sol\";")]

def relayMembers : List (String × Json) := [("sources", .object relaySources)]

def relayInput : String := (Json.object relayMembers).text

def relayLauncher : Launcher Unit := fun _ input _ =>
  let report := Json.object [("message", .string "Source \"b.sol\" not found: no such file")]
  let errors := if input = some (Utf8.encode relayInput) then [report] else []
  (.ok ⟨true, Utf8.encodeChars (Json.object [("errors", .array errors)]).chars, []⟩, ())

def relayImports : Asked Unit := fun _ _ => (.contents "contract B", ())

theorem compile_follows_reports_relay :
    Json.ofString? relayInput = .ok (.object relayMembers) ∧
      Table.find? "sources" relayMembers = some (.object relaySources) ∧
      (let log := exchanges ⟨"solc", []⟩ relayLauncher 8 relayInput relayImports ()
      let result := ((compile ⟨"solc", []⟩ relayLauncher 8 relayInput relayImports).run ()).result
      log.supplied = [("b.sol", "contract B")] ∧ log.runs ≤ 1 + log.supplied.length ∧
        ∃ text, result = .ok text ∧ Concluded log text) := by
  have request : Json.ofString? relayInput = .ok (.object relayMembers) := by
    decide +kernel
  have own : Table.find? "sources" relayMembers = some (.object relaySources) := by
    decide +kernel
  obtain ⟨-, -, concluded, -, bound, -, -⟩ := compile_follows_reports ⟨"solc", []⟩ relayLauncher 8
    relayImports () request own
  have result : ((compile ⟨"solc", []⟩ relayLauncher 8 relayInput relayImports).run ()).result =
      .ok "\x7b\"errors\":[]\x7d" := by decide +kernel
  exact ⟨request, own, by decide +kernel, bound, _, result, concluded _ result⟩

def missingLauncher : Launcher Unit := fun _ _ w =>
  (.ok ⟨true, Utf8.encodeChars (diagnosed "Source \"p\" not found: u").chars, []⟩, w)

def twoLines : Asked Unit := fun _ w => (.error "e\nSource \"z\" not found: w", w)

theorem unasked_report_returned :
    let input := "\x7b\"sources\":\x7b\x7d\x7d"
    let response := diagnosed "Source \"p\" not found: e\nSource \"z\" not found: w"
    ((compile ⟨"solc", []⟩ missingLauncher 8 input twoLines).run ()).result = .ok response.text ∧
      missingSources response = ["p", "z"] ∧
      (exchanges ⟨"solc", []⟩ missingLauncher 8 input twoLines ()).paths = ["p"] := by
  decide +kernel

end ContractBuild.ImportLoop
