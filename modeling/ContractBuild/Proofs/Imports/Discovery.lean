import ContractBuild.Compiler.SingleSource
import ContractBuild.Proofs.Diagnostics.Triage
import ContractBuild.Proofs.Imports.Passing
import ContractBuild.Proofs.Imports.Reasons
import ContractBuild.Proofs.Imports.Refusal
import ContractBuild.Proofs.Response.Answered
import ContractBuild.Proofs.Response.Values

/-!
# Finding the imports of a source

The imports of a source are found by refusing all of them: the compiler then reports each, and its
diagnostics are read back. Whatever source text a diagnostic quotes behind its report, it counts for
the path that it reports first, and remarks of unreleased compilers may stand anywhere between the
reports. A compiler that asks for its imports quotes the refusal. A program cannot, and its own
reasons are replaced before the diagnostics are read.
-/

namespace ContractBuild

namespace Imports

/-- Behind a text that opens no report, a message reports this source missing. -/
def Shows (path reason post message : String) : Prop :=
  ∃ pre : String, ¬ Segment.opening <:+: pre.toList ∧ message = pre ++ notFound path reason ++ post

variable {path reason post message : String}

theorem Shows.importIn? (shows : Shows path reason post message) (quotable : Quotable path)
    (line : '\n' ∉ reason.toList) : importIn? message = some path := by
  obtain ⟨pre, absent, rfl⟩ := shows
  have cut : (pre ++ notFound path reason ++ post).toList =
      pre.toList ++ ((Segment.missing path.toList reason.toList).chars ++ post.toList) := by
    simp only [String.toList_append, toList_notFound, List.append_assoc]
  have front : ∀ s : List Char, (s.map Segment.other).filterMap Segment.path? = [] := fun s => by
    simp [Segment.path?]
  rw [Imports.importIn?, missingIn, cut, Segment.all_report absent (quotable.sound line),
    List.filterMap_append, front, List.nil_append, List.filterMap_cons]
  simp [Segment.path?]

theorem Shows.withReasons (shows : Shows path reason post message) (quotable : Quotable path)
    (line : '\n' ∉ reason.toList) (ends : Segment.EndsLine post.toList)
    {answer : String → Option String} {new : String} (told : answer path = some new) :
    ∃ post', Shows path new post' (withReasons answer message) := by
  obtain ⟨pre, absent, rfl⟩ := shows
  refine ⟨Imports.withReasons answer post, pre, absent, String.toList_inj.1 ?_⟩
  have told' : answer (.ofList path.toList) = some new := by rwa [String.ofList_toList]
  simp only [withReasons_eq, String.toList_append, toList_notFound, String.toList_ofList,
    List.append_assoc]
  rw [Segment.all_append absent (Segment.opening_prefix_chars _ _ _),
    Segment.all_missing (quotable.sound line) ends, List.flatMap_append, List.flatMap_cons,
    Segment.flatMap_answered_other, Segment.answered_of_some told']

end Imports

namespace SingleSource

open Imports

structure Reports (d : Diagnostic) (path : String) : Prop where
  plain : ¬ d.HoldsAdvisory
  quotable : Quotable path
  shows : ∃ post, Shows path importKey post d.formatted

structure Misses (d : Diagnostic) (path : String) : Prop where
  plain : ¬ d.HoldsAdvisory
  quotable : Quotable path
  shows : ∃ reason post, '\n' ∉ reason.toList ∧ Segment.EndsLine post.toList ∧
    d.message = notFound path reason ∧ Shows path reason post d.formatted

structure Remarks (d : Diagnostic) : Prop where
  advisory : d.HoldsAdvisory
  message : ¬ Segment.opening <:+: d.message.toList
  formatted : ∀ text ∈ d.formattedMessage, ¬ Segment.opening <:+: text.toList

/-- Diagnostics that are, in order, one for each path, with others anywhere between them. -/
inductive Interleaved (other : Diagnostic → Prop) (about : Diagnostic → String → Prop) :
    List Diagnostic → List String → Prop
  | done : Interleaved other about [] []
  | skip {d : Diagnostic} {ds : List Diagnostic} {paths : List String} (first : other d)
    (later : Interleaved other about ds paths) : Interleaved other about (d :: ds) paths
  | take {d : Diagnostic} {path : String} {ds : List Diagnostic} {paths : List String}
    (first : about d path) (later : Interleaved other about ds paths) :
    Interleaved other about (d :: ds) (path :: paths)

section

variable {errors : List Diagnostic} {paths : List String}

theorem importKey_line : '\n' ∉ importKey.toList := by decide

theorem Reports.isImportReport {d : Diagnostic} {path : String} (reports : Reports d path) :
    isImportReport d = true := by
  obtain ⟨post, pre, -, eq⟩ := reports.shows
  rw [SingleSource.isImportReport, Text.contains_eq_true_iff, eq, notFound]
  refine ⟨(pre ++ ("Source \"" ++ path ++ "\" not found: ")).toList, post.toList, ?_⟩
  simp only [String.toList_append, List.append_assoc]

theorem forall₂_of_interleaved
    (interleaved : Interleaved Diagnostic.HoldsAdvisory Reports errors paths) :
    List.Forall₂ Reports (Diagnostic.withoutAdvisories errors) paths := by
  induction interleaved with
  | done => exact .nil
  | skip advisory _ ih =>
    rw [Diagnostic.withoutAdvisories, List.filter_cons_of_neg]
    · exact ih
    · simpa using Diagnostic.isAdvisory_eq_true_iff.2 advisory
  | take reports _ ih =>
    rw [Diagnostic.withoutAdvisories, List.filter_cons_of_pos]
    · exact .cons reports ih
    · simpa using Diagnostic.isAdvisory_eq_false_iff.2 reports.plain

theorem read_reports {reports : List Diagnostic} (reported : List.Forall₂ Reports reports paths) :
    reports.find? (fun d => !isImportReport d) = none ∧
      reports.filterMap (fun d => importIn? d.formatted) = paths := by
  induction reported with
  | nil => exact ⟨rfl, rfl⟩
  | @cons d path _ _ first _ ih =>
    obtain ⟨post, shows⟩ := first.shows
    have named : importIn? d.formatted = some path := shows.importIn? first.quotable importKey_line
    constructor
    · rw [List.find?_cons_of_neg (by simp [first.isImportReport])]
      exact ih.1
    · simp only [List.filterMap_cons, named, ih.2]

theorem importsOf_interleaved
    (interleaved : Interleaved Diagnostic.HoldsAdvisory Reports errors paths) :
    importsOf errors = .ok (paths.filter (· ≠ sentinel)) := by
  obtain ⟨none, found⟩ := read_reports (forall₂_of_interleaved interleaved)
  rw [importsOf, none]
  simp only [found]

variable {answer : String → Option String} {d : Diagnostic} {path : String}

theorem formatted_answered (answer : String → Option String) (d : Diagnostic) :
    (d.answered answer).formatted = withReasons answer d.formatted := by
  cases formatted : d.formattedMessage <;> simp [Diagnostic.formatted, Diagnostic.answered, formatted]

theorem plain_answered (refused : ∀ path new, answer path = some new → new = importKey)
    (plain : ¬ d.HoldsAdvisory) : ¬ (d.answered answer).HoldsAdvisory := by
  have free : ∀ path new, answer path = some new →
      ¬ Diagnostic.advisory.toList <:+: Segment.middle.tail ++ new.toList := by
    intro path new told
    rw [refused path new told, ← Text.contains_eq_true_iff]
    decide
  have before {text : String}
      (inside : Diagnostic.advisory.toList <:+: (withReasons answer text).toList) :
      Diagnostic.advisory.toList <:+: text.toList :=
    infix_of_withReasons (by decide) (by decide) free inside
  rintro (inside | ⟨_, some, inside⟩)
  · exact plain (.inl (before inside))
  · obtain ⟨text, formatted, rfl⟩ := Option.map_eq_some_iff.1 some
    exact plain (.inr ⟨text, formatted, before inside⟩)

theorem Misses.reports (misses : Misses d path) (told : answer path = some importKey)
    (refused : ∀ path new, answer path = some new → new = importKey) :
    Reports (d.answered answer) path := by
  obtain ⟨reason, post, line, ends, -, shows⟩ := misses.shows
  refine ⟨plain_answered refused misses.plain, misses.quotable, ?_⟩
  rw [formatted_answered]
  exact shows.withReasons misses.quotable line ends told

theorem Remarks.holdsAdvisory (remarks : Remarks d) (answer : String → Option String) :
    (d.answered answer).HoldsAdvisory := by
  rcases remarks.advisory with inside | ⟨text, some, inside⟩
  · refine .inl ?_
    rw [Diagnostic.answered, withReasons_of_no_opening remarks.message]
    exact inside
  · refine .inr ⟨text, ?_, inside⟩
    rw [Diagnostic.answered, some, Option.map_some,
      withReasons_of_no_opening (remarks.formatted text some)]

theorem Interleaved.answered (interleaved : Interleaved Remarks Misses errors paths)
    (told : ∀ d ∈ errors, ∀ path, Misses d path → answer path = some importKey)
    (refused : ∀ path new, answer path = some new → new = importKey) :
    Interleaved Diagnostic.HoldsAdvisory Reports (errors.map (Diagnostic.answered answer)) paths := by
  induction interleaved with
  | done => exact .done
  | skip remarks _ ih =>
    exact .skip (remarks.holdsAdvisory answer) (ih fun d mem => told d (.tail _ mem))
  | take misses _ ih =>
    exact .take (misses.reports (told _ (.head _) _ misses) refused)
      (ih fun d mem => told d (.tail _ mem))

theorem Misses.mem_missingSources {found : Json} (misses : Misses d path)
    (message : ∃ x ∈ diagnostics found, x.text? "message" = some d.message) :
    path ∈ missingSources found := by
  obtain ⟨x, mem, text⟩ := message
  obtain ⟨reason, post, line, -, eq, -⟩ := misses.shows
  refine Imports.mem_missingSources.2 ⟨x, mem, d.message, text, ?_⟩
  rw [eq, missingIn_notFound misses.quotable line]
  exact List.mem_singleton_self path

end

section

variable {σ : Type} {c : Compiler σ} {paths : List String} {response : Response} {s s' : σ}

theorem imports_of_reports (body : String) {notes : List Note}
    (invoked : (c.invoke (importsRequest body) (some (ImportLoop.refusing importKey))).run s =
      ⟨.ok response, notes, s'⟩)
    (interleaved : Interleaved Diagnostic.HoldsAdvisory Reports response.errors paths) :
    (imports c body).run s = ⟨.ok (paths.filter (· ≠ sentinel)),
      notes ++ [.event (.unresolvedImports (paths.filter (· ≠ sentinel)))], s'⟩ := by
  change (c.invoke (importsRequest body) (some (ImportLoop.refusing importKey)) >>= _).run s = _
  rw [Job.run_bind, invoked]
  dsimp only
  rw [importsOf_interleaved interleaved]
  rfl

theorem importsRequest_clean (body : String) : (importsRequest body).settings.Clean := nofun

theorem importsRequest_nesting (body : String) :
    (importsRequest body).json.nesting ≤ Json.nestingLimit := by
  have nesting : (importsRequest body).json.nesting = 5 := rfl
  rw [nesting]
  decide

theorem imports_of_misses (body : String) {p : Program} {launch : Launcher σ} {runs : Nat}
    {version : Option String} {w w' : σ} {exit : Exit} {text : String} {found : Json}
    {raw : Response} (mayRun : 0 < runs) (starts : p.canStart = true)
    (launched : launch (p.arguments ++ ["--standard-json"])
      (some (Utf8.encode (importsRequest body).text)) w = (.ok exit, w'))
    (success : exit.success = true) (decoded : Utf8.decode exit.output = .ok text)
    (parsed : Json.ofString? text = .ok found) (written : ∃ ms, found = .object ms)
    (diagnosed : ∀ d ∈ diagnostics found, ∃ ms, d = .object ms)
    (given : Response.reader.runString text = .ok raw)
    (interleaved : Interleaved Remarks Misses raw.errors paths) :
    (imports (p.compiler launch runs) body).run ⟨version, w⟩ =
      ⟨.ok (paths.filter (· ≠ sentinel)),
        [.event (.unresolvedImports (paths.filter (· ≠ sentinel)))], version, w'⟩ := by
  obtain ⟨runs, rfl⟩ : ∃ n, runs = n + 1 := ⟨runs - 1, by omega⟩
  have requested := Request.ofString?_text (importsRequest_clean body) (importsRequest_nesting body)
  have reprinted : (importsRequest body).text.toList = (importsRequest body).json.chars :=
    String.toList_ofList
  have run := Program.response_of_exit starts reprinted launched success decoded parsed
  obtain ⟨answers, settled, refused⟩ := ImportLoop.settle_refusing run importKey runs
  have read := (Json.ofString?_eq_ok_iff.1 parsed).1
  rw [Json.runString_of_parsed _ parsed] at given
  obtain ⟨response, again, errors, messages⟩ :=
    Response.read_withAnswers read written diagnosed given answers
  have called := (Program.call_asking (runs + 1) (ImportLoop.refusing importKey) requested).trans
    settled
  have passed : (some (ImportLoop.refusing importKey)).map (Program.askedInWorld · version) =
    some (ImportLoop.refusing importKey : Asked σ) := rfl
  have invoked := Program.invoke_compiler (runs + 1) (importsRequest body) _ version passed called
  rw [Json.Reader.runString_text, again] at invoked
  -- Each missing source was asked for, so all reports have got the refusal as their reason.
  have told : ∀ d ∈ raw.errors, ∀ path, Misses d path → answers.error? path = some importKey :=
    fun d mem path misses => refused.error?_of_mem (misses.mem_missingSources (messages d mem))
  have reported : Interleaved Diagnostic.HoldsAdvisory Reports response.errors paths := by
    rw [errors]
    exact interleaved.answered told fun path new => refused.eq_of_error?
  have outcome := imports_of_reports body invoked reported
  rw [List.nil_append] at outcome
  exact outcome

end

/-- The imports that are reported, in order and with repetitions, are what is found, except for the
sentinel. A compiler with a callback reports the refusals; a program that is run once reports its
own reasons. -/
theorem imports_finds_reported {σ : Type} (body : String) (paths : List String) :
    (∀ (c : Compiler σ) (s s' : σ) (notes : List Note) (response : Response),
      (c.invoke (importsRequest body) (some (ImportLoop.refusing importKey))).run s =
        ⟨.ok response, notes, s'⟩ →
      Interleaved Diagnostic.HoldsAdvisory Reports response.errors paths →
      (imports c body).run s = ⟨.ok (paths.filter (· ≠ sentinel)),
        notes ++ [.event (.unresolvedImports (paths.filter (· ≠ sentinel)))], s'⟩) ∧
    ∀ (p : Program) (launch : Launcher σ) (runs : Nat) (version : Option String) (w w' : σ)
      (exit : Exit) (text : String) (found : Json) (raw : Response), 0 < runs →
      p.canStart = true →
      launch (p.arguments ++ ["--standard-json"])
        (some (Utf8.encode (importsRequest body).text)) w = (.ok exit, w') →
      exit.success = true → Utf8.decode exit.output = .ok text →
      Json.ofString? text = .ok found → (∃ ms, found = .object ms) →
      (∀ d ∈ diagnostics found, ∃ ms, d = .object ms) →
      Response.reader.runString text = .ok raw →
      Interleaved Remarks Misses raw.errors paths →
      (imports (p.compiler launch runs) body).run ⟨version, w⟩ =
        ⟨.ok (paths.filter (· ≠ sentinel)),
          [.event (.unresolvedImports (paths.filter (· ≠ sentinel)))], version, w'⟩ := by
  constructor
  · intro c s s' notes response invoked interleaved
    exact imports_of_reports body invoked interleaved
  · intro p launch runs version w w' exit text found raw mayRun starts launched success decoded
      parsed written diagnosed given interleaved
    exact imports_of_misses body mayRun starts launched success decoded parsed written diagnosed
      given interleaved

def quoting (severity : Severity) (message : String) : Diagnostic :=
  .brief severity message ("1:1: " ++ message ++ "\nimport 'A.sol'; import 'B.sol';")

def threeReports (reason : String) : List Diagnostic :=
  [quoting .error (notFound "A.sol" reason), quoting .error (notFound "A.sol" reason),
    quoting .warning Diagnostic.advisory, quoting .error (notFound sentinel reason)]

theorem isBrief_threeReports (reason : String) : ∀ d ∈ threeReports reason, d.IsBrief := by
  simp [threeReports, quoting, Diagnostic.isBrief_brief]

def askingCompiler : Compiler Unit where
  name := "asking"
  exposes _ := true
  call _ _ asked := ⟨fun w =>
    let told := match asked.map fun ask => (ask "A.sol" w).1 with
      | some (.error reason) => threeReports reason
      | _ => []
    ⟨.ok (Response.briefJson told).text, [], w⟩⟩
  version := pure "0.8.0"

theorem quoting_plain {reason : String} (known : reason = importKey ∨ reason = "File not found.")
    {path : String} (named : path = "A.sol" ∨ path = sentinel) :
    ¬ (quoting .error (notFound path reason)).HoldsAdvisory := by
  rw [← Diagnostic.isAdvisory_eq_false_iff]
  rcases known with rfl | rfl <;> rcases named with rfl | rfl <;> decide +kernel

theorem quoting_shows (path reason : String) : Shows path reason "\nimport 'A.sol'; import 'B.sol';"
    (quoting .error (notFound path reason)).formatted := by
  refine ⟨"1:1: ", by decide, ?_⟩
  rw [String.append_assoc]
  rfl

theorem remarks_quoting : Remarks (quoting .warning Diagnostic.advisory) where
  advisory := .inl List.infix_rfl
  message := by decide +kernel
  formatted := by
    rintro text ⟨⟩
    decide +kernel

theorem quotable_import : Quotable "A.sol" := ⟨by decide, by decide⟩

theorem quotable_sentinel : Quotable sentinel := ⟨by decide, by decide⟩

theorem interleaved_asked : Interleaved Diagnostic.HoldsAdvisory Reports (threeReports importKey)
    ["A.sol", "A.sol", sentinel] := by
  have reports {path : String} (named : path = "A.sol" ∨ path = sentinel)
      (quotable : Quotable path) : Reports (quoting .error (notFound path importKey)) path :=
    ⟨quoting_plain (.inl rfl) named, quotable, _, quoting_shows path importKey⟩
  exact .take (reports (.inl rfl) quotable_import) <| .take (reports (.inl rfl) quotable_import) <|
    .skip remarks_quoting.advisory <| .take (reports (.inr rfl) quotable_sentinel) .done

theorem interleaved_printed : Interleaved Remarks Misses (threeReports "File not found.")
    ["A.sol", "A.sol", sentinel] := by
  have misses {path : String} (named : path = "A.sol" ∨ path = sentinel)
      (quotable : Quotable path) : Misses (quoting .error (notFound path "File not found.")) path :=
    ⟨quoting_plain (.inr rfl) named, quotable, _, _, by decide, by rintro c ⟨⟩; rfl, rfl,
      quoting_shows path "File not found."⟩
  exact .take (misses (.inl rfl) quotable_import) <| .take (misses (.inl rfl) quotable_import) <|
    .skip remarks_quoting <| .take (misses (.inr rfl) quotable_sentinel) .done

theorem imports_finds_reported_twice :
    (imports askingCompiler "import 'A.sol';").run () = ⟨.ok ["A.sol", "A.sol"],
      [.event (.unresolvedImports ["A.sol", "A.sol"])], ()⟩ ∧
    (imports (Program.compiler ⟨"solc", []⟩
      (Program.printing (Response.briefJson (threeReports "File not found.")).text) 1)
      "import 'A.sol';").run ⟨none, ()⟩ = ⟨.ok ["A.sol", "A.sol"],
        [.event (.unresolvedImports ["A.sol", "A.sol"])], none, ()⟩ := by
  have kept : (["A.sol", "A.sol", sentinel].filter (· ≠ sentinel)) = ["A.sol", "A.sol"] := by decide
  have given (reason : String) := Response.runString_briefJson (isBrief_threeReports reason)
  obtain ⟨asked, printed⟩ := imports_finds_reported "import 'A.sol';" ["A.sol", "A.sol", sentinel]
  rw [kept] at asked printed
  constructor
  · refine asked askingCompiler () () [] ⟨threeReports importKey, .empty, .empty⟩ ?_
      interleaved_asked
    have answered : (askingCompiler.call .compileStandard (importsRequest "import 'A.sol';").text
        (some (ImportLoop.refusing importKey))).run () =
          ⟨.ok (Response.briefJson (threeReports importKey)).text, [], ()⟩ := rfl
    rw [Compiler.invoke_of_answer rfl answered, given]
    rfl
  · have given := given "File not found."
    have parsed := (Response.plain_briefJson (threeReports "File not found.")).ofString?_text
      (by decide)
    obtain ⟨written, diagnosed⟩ := Response.written_briefJson (threeReports "File not found.")
    -- The text is not to be looked into while the arguments are put together.
    generalize Response.briefJson (threeReports "File not found.") = found at *
    exact printed ⟨"solc", []⟩ (Program.printing found.text) 1 none () ()
      ⟨true, Utf8.encode found.text, []⟩ found.text found _ (by decide) (by decide +kernel) rfl rfl
      (Utf8.decode_encode found.text) parsed written diagnosed given interleaved_printed

end SingleSource
end ContractBuild
