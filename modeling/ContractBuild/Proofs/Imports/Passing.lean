import ContractBuild.Compiler.Native
import ContractBuild.Proofs.Imports.Exchange
import ContractBuild.Proofs.Imports.Segments
import ContractBuild.Proofs.Request.Text
import ContractBuild.Proofs.Response.Values
import ContractBuild.Proofs.Text.Utf8

/-!
# A callback that is not needed

With a callback for imports a program is not simply run: the request is parsed and printed again,
and so is the response, whose reasons are replaced on the way. If the response misses no source,
none of this is to be seen. The program gets the same bytes, the callback is not asked, and the
response is read with the same result, or with the same problem.
-/

namespace ContractBuild

namespace Imports

theorem withReasons_of_silent {answer : String → Option String}
    (silent : ∀ path, answer path = none) (message : String) :
    withReasons answer message = message := by
  have same : Segment.answered answer = Segment.chars := by
    funext segment
    cases segment with
    | other c => rfl
    | missing path reason => exact Segment.answered_of_none (silent _)
  rw [withReasons_eq, same, Segment.flatMap_chars_all, String.ofList_toList]

theorem onMember_id (key : String) {f : Json → Json} (id : ∀ x, f x = x) (x : Json) :
    onMember key f x = x := by
  cases x with
  | object members => simp [onMember, id]
  | null | bool | number | string | array => rfl

theorem onItems_id {f : Json → Json} (id : ∀ x, f x = x) (x : Json) : onItems f x = x := by
  cases x with
  | array items => simp [onItems, funext id]
  | null | bool | number | string | object => rfl

theorem withAnswers_empty (response : Json) : withAnswers .empty response = response := by
  have text : ∀ x, onText (withReasons (ImportAnswers.error? .empty)) x = x := by
    intro x
    cases x with
    | string s => exact congrArg _ (withReasons_of_silent (fun _ => rfl) s)
    | null | bool | number | array | object => rfl
  refine onMember_id _ (onItems_id fun d => ?_) response
  rw [onMember_id "message" text, onMember_id "formattedMessage" text]

theorem missingSources_eq_nil {response : Json} (complete : ∀ d ∈ diagnostics response,
    ∀ message, d.text? "message" = some message → missingIn message = []) :
    missingSources response = [] := by
  rw [List.eq_nil_iff_forall_not_mem]
  intro path mem
  obtain ⟨d, mem, message, text, named⟩ := mem_missingSources.1 mem
  rw [complete d mem message text] at named
  exact List.not_mem_nil named

end Imports

theorem Compiler.invoke_of_answer {σ : Type} {c : Compiler σ} {request : Request}
    {imports : Option (Asked σ)} {entry : EntryPoint} {s s' : σ} {answer : String}
    (known : c.entryPoint = .ok entry)
    (answered : (c.call entry request.text imports).run s = ⟨.ok answer, [], s'⟩) :
    (c.invoke request imports).run s =
      ⟨(Response.reader.runString answer).mapError Failure.json, [], s'⟩ := by
  have found : (Job.ofExcept c.entryPoint).run s = ⟨.ok entry, [], s⟩ := by
    rw [known]
    rfl
  rw [invoke, Job.run_bind_of_ok found, Job.run_bind_of_ok answered]
  rfl

namespace Program

open ImportLoop

variable {σ : Type}

def recordedCallback (imports : Asked (Session σ)) : Asked (Session (Recorded σ)) := fun path s =>
  let (answer, after) := imports path ⟨s.version, s.world.world⟩
  (answer, ⟨after.version, after.world, s.world.log ++ [.asked path answer]⟩)

variable {p : Program} {launch : Launcher σ} {exit : Exit} {w w' : σ} {input text : String}
  {request found : Json}

theorem compileOutput_of_exit {bytes : Bytes} (starts : p.canStart = true)
    (launched : launch (p.arguments ++ ["--standard-json"]) (some bytes) w = (.ok exit, w'))
    (success : exit.success = true) :
    (p.compileOutput launch bytes).run w = ⟨.ok exit.output, [], w'⟩ := by
  simp only [compileOutput, run, if_pos starts, Job.run_bind, launched, Except.mapError,
    Job.ofExcept, outputOf, success, if_true, List.append_nil]

theorem call_plain (starts : p.canStart = true)
    (launched : launch (p.arguments ++ ["--standard-json"]) (some (Utf8.encode input)) w =
      (.ok exit, w'))
    (success : exit.success = true) (decoded : Utf8.decode exit.output = .ok text) (runs : Nat) :
    (p.call launch runs .compileStandard input none).run w = ⟨.ok text, [], w'⟩ := by
  change ((p.compileOutput launch (Utf8.encode input)) >>= _).run w = _
  rw [Job.run_bind_of_ok (compileOutput_of_exit starts launched success), decoded]
  rfl

theorem call_asking (runs : Nat) (imports : Asked σ)
    (requested : Json.ofString? input = .ok request) :
    (p.call launch runs .compileStandard input (some imports)).run w =
      (settle p launch imports runs request .empty).run w := by
  change (ImportLoop.compile p launch runs input imports).run w = _
  have read : (Job.ofExcept ((Json.ofString? input).mapError Failure.json)).run w =
      ⟨.ok request, [], w⟩ := by
    rw [requested]
    rfl
  rw [ImportLoop.compile, Job.run_bind_of_ok read]

theorem response_of_exit (starts : p.canStart = true) (reprinted : input.toList = request.chars)
    (launched : launch (p.arguments ++ ["--standard-json"]) (some (Utf8.encode input)) w =
      (.ok exit, w'))
    (success : exit.success = true) (decoded : Utf8.decode exit.output = .ok text)
    (parsed : Json.ofString? text = .ok found) :
    (response p launch request).run w = ⟨.ok found, [], w'⟩ := by
  rw [Utf8.encode, reprinted] at launched
  rw [response, Job.run_bind_of_ok (compileOutput_of_exit starts launched success),
    Json.ofBytes?, decoded]
  change Job.Outcome.mk ((Json.ofString? text).mapError Failure.json) [] w' = _
  rw [parsed]
  rfl

theorem settle_of_complete (runs : Nat) (imports : Asked σ)
    (run : (response p launch request).run w = ⟨.ok found, [], w'⟩)
    (complete : Imports.missingSources found = []) :
    (settle p launch imports (runs + 1) request .empty).run w = ⟨.ok found.text, [], w'⟩ := by
  rw [settle, Job.run_bind_of_ok run, complete, askAll, Job.run_bind_of_ok (Job.run_pure _ _),
    Imports.withAnswers_empty]
  rfl

theorem invoke_compiler (runs : Nat) (request : Request) (imports : Option (Asked (Session σ)))
    (version : Option String) {asked : Option (Asked σ)}
    (passed : imports.map (askedInWorld · version) = asked)
    (called : (p.call launch runs .compileStandard request.text asked).run w =
      ⟨.ok text, [], w'⟩) :
    ((compiler p launch runs).invoke request imports).run ⟨version, w⟩ =
      ⟨(Response.reader.runString text).mapError Failure.json, [], ⟨version, w'⟩⟩ := by
  refine Compiler.invoke_of_answer (c := compiler p launch runs) rfl ?_
  subst passed
  change (⟨_, _, _⟩ : Job.Outcome _ _) = _
  rw [called]

/-- With and without a callback the program is run once with the same bytes, the callback is not
asked, and the outcomes are equal: the same response, or a problem of the same category and with the
same message, which both paths read off their own text. -/
theorem invoke_needs_no_callback (p : Program) (launch : Launcher σ) (runs : Nat)
    (request : Request) (imports : Asked (Session σ)) (version : Option String) (w w' : σ)
    (log : Log) (exit : Exit) (text : String) (found : Json) (mayRun : 0 < runs)
    (starts : p.canStart = true) (clean : request.settings.Clean)
    (shallow : request.json.nesting ≤ Json.nestingLimit)
    (launched : launch (p.arguments ++ ["--standard-json"]) (some (Utf8.encode request.text)) w =
      (.ok exit, w'))
    (success : exit.success = true) (decoded : Utf8.decode exit.output = .ok text)
    (parsed : Json.ofString? text = .ok found)
    (distinct : (Json.Tree.ofText text.toList).1.DistinctKeys)
    (integers : found.Numbers Json.Number.IsInteger)
    (complete : ∀ d ∈ Imports.diagnostics found, ∀ message, d.text? "message" = some message →
      Imports.missingIn message = []) :
    let run := Exchange.ran (p.arguments ++ ["--standard-json"])
      (some (Utf8.encode request.text)) (.ok exit)
    let outcome : Job.Outcome (Session (Recorded σ)) Response :=
      ⟨(Response.reader.runString text).mapError Failure.json, [], version, w', log ++ [run]⟩
    ((compiler p (recordedLauncher launch) runs).invoke request none).run ⟨version, w, log⟩ =
      outcome ∧
    ((compiler p (recordedLauncher launch) runs).invoke request
      (some (recordedCallback imports))).run ⟨version, w, log⟩ = outcome := by
  intro run outcome
  have recorded : recordedLauncher launch (p.arguments ++ ["--standard-json"])
      (some (Utf8.encode request.text)) ⟨w, log⟩ = (.ok exit, ⟨w', log ++ [run]⟩) := by
    rw [recordedLauncher, launched]
  constructor
  · exact invoke_compiler runs request none version rfl
      (call_plain starts recorded success decoded runs)
  · obtain ⟨runs, rfl⟩ : ∃ n, runs = n + 1 := ⟨runs - 1, by omega⟩
    have same := Response.reader_uniform.runString_text parsed distinct
      (Json.Numbers.imp (fun _ => Json.Number.reprints_of_isInteger) found integers)
    have reprinted : request.text.toList = request.json.chars := String.toList_ofList
    have silent := Imports.missingSources_eq_nil complete
    have requested := Request.ofString?_text clean shallow
    have answered := response_of_exit starts reprinted recorded success decoded parsed
    have called := (call_asking (runs + 1) (askedInWorld (recordedCallback imports) version)
      requested).trans (settle_of_complete runs _ answered silent)
    have passed : (some (recordedCallback imports)).map (askedInWorld · version) =
      some (askedInWorld (recordedCallback imports) version) := rfl
    rw [invoke_compiler (runs + 1) request _ version passed called, same]

def quotedReport : Json := .object [("errors", .array [.object [("severity", .string "warning"),
  ("message", .string "m"), ("formattedMessage", .string "Source \"a\" not found: b")]])]

def quotedReportText : String :=
  "\x7b\"errors\": [\x7b\"severity\": \"warning\", \"message\": \"m\", " ++
    "\"formattedMessage\": \"Source \\\"a\\\" not found: b\"\x7d]\x7d"

def tunedRequest : Request := .single "a.sol" "x"
  { Settings.select .astOnly with
    optimizer := some ⟨some true, none, .singleton "details" (.object [("yul", .bool true)])⟩ }

theorem tunedRequest_clean : tunedRequest.settings.Clean := by
  rintro o ⟨⟩
  refine ⟨fun e mem => ?_, fun e mem => ?_⟩ <;> cases List.mem_singleton.1 mem
  · decide
  · refine Json.plain_object_iff.2 ⟨List.nodup_singleton _, fun m mem => ?_⟩
    rw [List.mem_singleton.1 mem]
    exact Json.plain_bool true

def printing (text : String) : Launcher Unit := fun _ _ w => (.ok ⟨true, Utf8.encode text, []⟩, w)

def quotingCompiler : Compiler (Session (Recorded Unit)) :=
  compiler ⟨"solc", []⟩ (recordedLauncher (printing quotedReportText)) 1

def echoing : Asked (Session Unit) := fun path s => (.contents path, s)

theorem invoke_needs_no_callback_quotedReport :
    (quotingCompiler.invoke tunedRequest (some (recordedCallback echoing))).run ⟨none, (), []⟩ =
      (quotingCompiler.invoke tunedRequest none).run ⟨none, (), []⟩ ∧
    ((quotingCompiler.invoke tunedRequest none).run ⟨none, (), []⟩).state.world.log =
      [.ran ["--standard-json"] (some (Utf8.encode tunedRequest.text))
        (.ok ⟨true, Utf8.encode quotedReportText, []⟩)] := by
  have parsed : Json.ofString? quotedReportText = .ok quotedReport := by decide +kernel
  have distinct : (Json.Tree.ofText quotedReportText.toList).1.DistinctKeys := by decide +kernel
  have integers : quotedReport.Numbers Json.Number.IsInteger :=
    ⟨⟨⟨trivial, trivial, trivial, trivial⟩, trivial⟩, trivial⟩
  have complete : ∀ d ∈ Imports.diagnostics quotedReport, ∀ message,
      d.text? "message" = some message → Imports.missingIn message = [] := by
    intro d mem message text
    cases List.mem_singleton.1 mem
    cases text
    decide +kernel
  obtain ⟨plain, asking⟩ := invoke_needs_no_callback ⟨"solc", []⟩ (printing quotedReportText) 1
    tunedRequest echoing none () () [] ⟨true, Utf8.encode quotedReportText, []⟩ quotedReportText
    quotedReport (by decide) (by decide +kernel) tunedRequest_clean (by decide +kernel) rfl rfl
    (Utf8.decode_encode _) parsed distinct integers complete
  rw [quotingCompiler, asking, plain]
  exact ⟨rfl, rfl⟩

end Program
end ContractBuild
