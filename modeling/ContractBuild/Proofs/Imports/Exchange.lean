import ContractBuild.Compiler.Native

/-!
# What an import loop exchanges with its surroundings

The import loop starts a program and asks for sources; both are arbitrary functions of a shared
state. To speak of the calls it makes they are written down: the state carries a log besides the
world, and each of the two functions appends what it was given and what it answered. The log has no
influence, so a run with a log has the result, the notes and the final world of the run without.
-/

namespace ContractBuild.Job

variable {σ α β : Type} {job : Job σ α} {next : α → Job σ β} {s s' : σ}

theorem run_bind_of_ok {x : α} (run : job.run s = ⟨.ok x, [], s'⟩) :
    (job >>= next).run s = (next x).run s' := by
  rw [run_bind, run]
  rfl

theorem run_bind_of_error {f : Failure} (run : job.run s = ⟨.error f, [], s'⟩) :
    (job >>= next).run s = ⟨.error f, [], s'⟩ := by
  rw [run_bind, run]

end ContractBuild.Job

namespace ContractBuild.ImportLoop

inductive Exchange
  | ran (arguments : List String) (input : Option Bytes) (result : Except FileFault Exit)
  | asked (path : String) (answer : ImportAnswer)

namespace Exchange

def isRun : Exchange → Bool
  | ran .. => true
  | asked .. => false

def response? : Exchange → Option Json
  | ran _ _ (.ok e) => if e.success then (Json.ofBytes? e.output).toOption else none
  | _ => none

def path? : Exchange → Option String
  | asked path _ => some path
  | ran .. => none

def supplied? : Exchange → Option (String × String)
  | asked path (.contents contents) => some (path, contents)
  | _ => none

end Exchange

abbrev Log := List Exchange

namespace Log

def runs (log : Log) : Nat := log.countP Exchange.isRun

def responses (log : Log) : List Json := log.filterMap Exchange.response?

def paths (log : Log) : List String := log.filterMap Exchange.path?

def supplied (log : Log) : List (String × String) := log.filterMap Exchange.supplied?

/-- No error that was answered has a newline. -/
def OneLine (log : Log) : Prop :=
  ∀ path reason, .asked path (.error reason) ∈ log → '\n' ∉ reason.toList

variable (log log' : Log)

@[simp] theorem runs_append : (log ++ log').runs = log.runs + log'.runs :=
  List.countP_append

@[simp] theorem responses_append :
    (log ++ log').responses = log.responses ++ log'.responses :=
  List.filterMap_append

@[simp] theorem paths_append : (log ++ log').paths = log.paths ++ log'.paths :=
  List.filterMap_append

@[simp] theorem supplied_append : (log ++ log').supplied = log.supplied ++ log'.supplied :=
  List.filterMap_append

variable {log} {path contents : String}

theorem mem_paths_iff : path ∈ log.paths ↔ ∃ answer, .asked path answer ∈ log := by
  simp only [paths, List.mem_filterMap]
  constructor
  · intro h
    obtain ⟨_ | ⟨path', answer⟩, mem, eq⟩ := h
    · cases eq
    · cases eq
      exact ⟨answer, mem⟩
  · intro h
    obtain ⟨answer, mem⟩ := h
    exact ⟨_, mem, rfl⟩

theorem mem_supplied_iff :
    (path, contents) ∈ log.supplied ↔ .asked path (.contents contents) ∈ log := by
  simp only [supplied, List.mem_filterMap]
  constructor
  · intro h
    obtain ⟨_ | ⟨path', _ | _⟩, mem, eq⟩ := h <;> cases eq
    exact mem
  · exact fun mem => ⟨_, mem, rfl⟩

theorem supplied_sublist_paths : (log.supplied.map Prod.fst).Sublist log.paths := by
  induction log with
  | nil => exact List.nil_sublist _
  | cons e log ih =>
    rcases e with _ | ⟨path, _ | _⟩
    · exact ih
    · exact ih.cons_cons path
    · exact ih.cons path

end Log

structure Recorded (σ : Type) where
  world : σ
  log : Log

variable {σ : Type}

def recordedLauncher (launch : Launcher σ) : Launcher (Recorded σ) := fun arguments input s =>
  let (result, world) := launch arguments input s.world
  (result, ⟨world, s.log ++ [.ran arguments input result]⟩)

def recordedImports (imports : Asked σ) : Asked (Recorded σ) := fun path s =>
  let (answer, world) := imports path s.world
  (answer, ⟨world, s.log ++ [.asked path answer]⟩)

def exchanges (p : Program) (launch : Launcher σ) (runs : Nat) (input : String)
    (imports : Asked σ) (w : σ) : Log :=
  ((compile p (recordedLauncher launch) runs input (recordedImports imports)).run ⟨w, []⟩).state.log

def Mirrors {α : Type} (recorded : Job (Recorded σ) α) (job : Job σ α) : Prop :=
  ∀ s, (recorded.run s).result = (job.run s.world).result ∧
    (recorded.run s).notes = (job.run s.world).notes ∧
    (recorded.run s).state.world = (job.run s.world).state

section

variable {α β : Type} {launch : Launcher σ} {imports : Asked σ}

theorem mirrors_ofExcept (result : Except Failure α) :
    Mirrors (.ofExcept result : Job (Recorded σ) α) (.ofExcept result) :=
  fun _ => ⟨rfl, rfl, rfl⟩

theorem Mirrors.bind {recorded : Job (Recorded σ) α} {job : Job σ α}
    {recordedNext : α → Job (Recorded σ) β} {next : α → Job σ β} (first : Mirrors recorded job)
    (second : ∀ x, Mirrors (recordedNext x) (next x)) :
    Mirrors (recorded >>= recordedNext) (job >>= next) := by
  intro s
  obtain ⟨result, notes, world⟩ := first s
  rw [Job.run_bind, Job.run_bind, result, notes, ← world]
  cases (job.run s.world).result with
  | error f => exact ⟨rfl, rfl, rfl⟩
  | ok x =>
    obtain ⟨result', notes', world'⟩ := second x (recorded.run s).state
    exact ⟨result', congrArg _ notes', world'⟩

theorem mirrors_response (p : Program) (request : Json) :
    Mirrors (response p (recordedLauncher launch) request) (response p launch request) := by
  have run : ∀ option input, Mirrors (p.run (recordedLauncher launch) option input)
      (p.run launch option input) := by
    intro option input
    unfold Program.run
    split
    · exact fun _ => ⟨rfl, rfl, rfl⟩
    · exact mirrors_ofExcept _
  refine Mirrors.bind ?_ fun _ => mirrors_ofExcept _
  exact Mirrors.bind (run _ _) fun _ => mirrors_ofExcept _

theorem mirrors_ask (path : String) (r : Round) :
    Mirrors (ask (recordedImports imports) path r) (ask imports path r) := by
  unfold ask
  split
  · exact mirrors_ofExcept _
  · refine Mirrors.bind (fun _ => ⟨rfl, rfl, rfl⟩) fun answer => ?_
    cases answer with
    | contents text => exact Mirrors.bind (mirrors_ofExcept _) fun _ => mirrors_ofExcept _
    | error reason => exact mirrors_ofExcept _

theorem mirrors_askAll (paths : List String) (r : Round) :
    Mirrors (askAll (recordedImports imports) paths r) (askAll imports paths r) := by
  induction paths generalizing r with
  | nil => exact mirrors_ofExcept _
  | cons path rest ih => exact Mirrors.bind (mirrors_ask path r) ih

theorem mirrors_settle (p : Program) (runs : Nat) (request : Json) (answers : ImportAnswers) :
    Mirrors (settle p (recordedLauncher launch) (recordedImports imports) runs request answers)
      (settle p launch imports runs request answers) := by
  induction runs generalizing request answers with
  | zero => exact mirrors_ofExcept _
  | succ runs ih =>
    refine Mirrors.bind (mirrors_response p request) fun found => ?_
    refine Mirrors.bind (mirrors_askAll _ _) fun r => ?_
    cases r.supplied with
    | false => exact mirrors_ofExcept _
    | true => exact ih r.request r.answers

theorem mirrors_compile (p : Program) (runs : Nat) (input : String) :
    Mirrors (compile p (recordedLauncher launch) runs input (recordedImports imports))
      (compile p launch runs input imports) :=
  Mirrors.bind (mirrors_ofExcept _) fun request => mirrors_settle p runs request .empty

end
end ContractBuild.ImportLoop
