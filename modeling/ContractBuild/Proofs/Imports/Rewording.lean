import ContractBuild.Proofs.Imports.Successive
import ContractBuild.Proofs.Response.Answered
import ContractBuild.Proofs.SortedMap

/-!
# What answers change in a response

Answers are put into a response as reasons and nowhere else. Outside of the diagnostics, and in
their other fields, everything stays as it is and where it is; in the two texts of a diagnostic the
reasons of the reports in succession give way to the errors that were answered for their paths.
Answers of one line each can be put in again without a change, and leave the missing sources as they
were.
-/

namespace ContractBuild.Imports

inductive Inside {β : Type} (mk : β → Json) (R : β → β → Prop) : Json → Json → Prop
  | content {b b' : β} (change : R b b') : Inside mk R (mk b) (mk b')
  | other {x : Json} (apart : ∀ b, x ≠ mk b) : Inside mk R x x

def MembersChange (R : String → Json → Json → Prop) : Json → Json → Prop :=
  Inside .object (List.Forall₂ fun m m' => m'.1 = m.1 ∧ R m.1 m.2 m'.2)

def reasonAfter (answers : ImportAnswers) (r : Report) : List Char :=
  match answers.find? (.ofList r.path) with
  | some (.error reason) => reason.toList
  | some (.contents _) | none => r.reason

/-- The second text is the first with the reasons after the answers. -/
def Reworded (answers : ImportAnswers) (s t : String) : Prop :=
  ∃ reports tail, Successive s.toList reports tail ∧
    t.toList = joined (reports.map fun r => { r with reason := reasonAfter answers r }) tail

def DiagnosticChanges (answers : ImportAnswers) : Json → Json → Prop :=
  MembersChange fun key x y =>
    if key = "message" ∨ key = "formattedMessage" then Inside .string (Reworded answers) x y else y = x

/-- In a response nothing changes but the diagnostics. -/
def ResponseChanges (answers : ImportAnswers) : Json → Json → Prop :=
  MembersChange fun key x y =>
    if key = "errors" then Inside .array (List.Forall₂ (DiagnosticChanges answers)) x y else y = x

variable {x y : Json}

theorem inside_iff {β : Type} {mk : β → Json} {R : β → β → Prop} {f : β → β} {change : Json → Json}
    (same : ∀ b b', R b b' ↔ b' = f b) (content : ∀ b, change (mk b) = mk (f b))
    (other : ∀ x, (∀ b, x ≠ mk b) → change x = x) : Inside mk R x y ↔ y = change x := by
  constructor
  · intro inside
    cases inside with
    | content changed => rw [content, (same _ _).1 changed]
    | other apart => exact (other _ apart).symm
  · intro eq
    subst eq
    by_cases made : ∃ b, x = mk b
    · obtain ⟨b, rfl⟩ := made
      rw [content]
      exact .content ((same _ _).2 rfl)
    · have apart : ∀ b, x ≠ mk b := fun b eq => made ⟨b, eq⟩
      rw [other x apart]
      exact .other apart

theorem forall₂_iff {β : Type} {R : β → β → Prop} {f : β → β} (same : ∀ b b', R b b' ↔ b' = f b)
    (bs bs' : List β) : List.Forall₂ R bs bs' ↔ bs' = bs.map f := by
  induction bs generalizing bs' with
  | nil => simp
  | cons b bs ih => cases bs' <;> simp [same, ih]

theorem membersChange_iff {R : String → Json → Json → Prop} {f : String → Json → Json}
    {change : Json → Json} (same : ∀ key x y, R key x y ↔ y = f key x)
    (object : ∀ ms, change (.object ms) = .object (Table.mapValues f ms))
    (other : ∀ x, (∀ ms, x ≠ .object ms) → change x = x) :
    MembersChange R x y ↔ y = change x := by
  refine inside_iff (forall₂_iff fun m m' => ?_) object other
  rw [same, Prod.ext_iff]

theorem onMember_of_ne {f : Json → Json} (key : String) (apart : ∀ ms, x ≠ .object ms) :
    onMember key f x = x := by
  cases x with
  | object ms => exact absurd rfl (apart ms)
  | null | bool | number | string | array => rfl

theorem onItems_of_ne {f : Json → Json} (apart : ∀ xs, x ≠ .array xs) : onItems f x = x := by
  cases x with
  | array xs => exact absurd rfl (apart xs)
  | null | bool | number | string | object => rfl

theorem onText_of_ne {f : String → String} (apart : ∀ s, x ≠ .string s) : onText f x = x := by
  cases x with
  | string s => exact absurd rfl (apart s)
  | null | bool | number | array | object => rfl

variable {answers : ImportAnswers}

theorem answered_eq (answers : ImportAnswers) (r : Report) :
    r.answered answers.error? = { r with reason := reasonAfter answers r } := by
  rw [Report.answered, reasonAfter, ImportAnswers.error?]
  cases answers.find? (.ofList r.path) with
  | none => rfl
  | some answer => cases answer <;> rfl

theorem reworded_iff {s t : String} :
    Reworded answers s t ↔ t = withReasons answers.error? s := by
  have same : Report.answered answers.error? = fun r => { r with reason := reasonAfter answers r } :=
    funext (answered_eq answers)
  rw [Reworded, ← same, ← String.toList_inj]
  constructor
  · intro ⟨reports, tail, successive, eq⟩
    rw [eq, successive.withReasons_eq]
  · intro eq
    obtain ⟨reports, tail, successive⟩ := exists_successive s.toList
    exact ⟨reports, tail, successive, eq.trans (successive.withReasons_eq _)⟩

theorem diagnosticChanges_iff :
    DiagnosticChanges answers x y ↔ y = amended answers.error? x := by
  refine membersChange_iff (fun key x y => ?_) (amended_object _) fun x apart => ?_
  · rw [amendedText]
    split
    · exact inside_iff (fun _ _ => reworded_iff) (fun _ => rfl) fun _ => onText_of_ne
    · rfl
  · rw [amended, onMember_of_ne "message" apart, onMember_of_ne "formattedMessage" apart]

theorem withAnswers_object (answers : ImportAnswers) (ms : List (String × Json)) :
    withAnswers answers (.object ms) =
      .object (Table.mapValues (Response.amendedErrors (amended answers.error?)) ms) :=
  Response.onMember_errors _ ms

theorem responseChanges_iff : ResponseChanges answers x y ↔ y = withAnswers answers x := by
  refine membersChange_iff (fun key x y => ?_) (withAnswers_object answers) fun x apart => ?_
  · rw [Response.amendedErrors]
    split
    · exact inside_iff (forall₂_iff fun _ _ => diagnosticChanges_iff) (fun _ => rfl)
        fun _ => onItems_of_ne
    · rfl
  · exact onMember_of_ne "errors" apart

/-- No error that was answered has a newline. -/
def OneLine (answers : ImportAnswers) : Prop :=
  ∀ path reason, answers.find? path = some (.error reason) → '\n' ∉ reason.toList

theorem OneLine.lines (oneLine : OneLine answers) :
    ∀ path new, answers.error? path = some new → '\n' ∉ new.toList := by
  intro path new told
  rw [ImportAnswers.error?] at told
  split at told <;> cases told
  exact oneLine path new ‹_›

section

variable {answer : String → Option String} {f : Json → Json}

theorem mapValues_mapValues {f : String → Json → Json} (again : ∀ key x, f key (f key x) = f key x)
    (ms : List (String × Json)) :
    Table.mapValues f (Table.mapValues f ms) = Table.mapValues f ms := by
  rw [Table.mapValues, Table.mapValues, List.map_map]
  exact List.map_congr_left fun m _ => Prod.ext rfl (again m.1 m.2)

theorem onItems_onItems (again : ∀ x, f (f x) = f x) (x : Json) :
    onItems f (onItems f x) = onItems f x := by
  cases x with
  | array xs => simp [onItems, again]
  | null | bool | number | string | object => rfl

variable (lines : ∀ path new, answer path = some new → '\n' ∉ new.toList)
include lines

theorem amendedText_amendedText (key : String) (x : Json) :
    amendedText answer key (amendedText answer key x) = amendedText answer key x := by
  by_cases text : key = "message" ∨ key = "formattedMessage"
  · rw [amendedText, amendedText, if_pos text, if_pos text]
    cases x with
    | string s => exact congrArg Json.string (withReasons_withReasons lines)
    | null | bool | number | array | object => rfl
  · rw [amendedText, amendedText, if_neg text, if_neg text]

theorem amended_amended (d : Json) : amended answer (amended answer d) = amended answer d := by
  cases d with
  | object ms =>
    rw [amended_object, amended_object, mapValues_mapValues (amendedText_amendedText lines)]
  | null | bool | number | string | array => rfl

end

theorem withAnswers_withAnswers (oneLine : OneLine answers) (response : Json) :
    withAnswers answers (withAnswers answers response) = withAnswers answers response := by
  have again (key : String) (x : Json) :
      Response.amendedErrors (amended answers.error?) key
        (Response.amendedErrors (amended answers.error?) key x) =
          Response.amendedErrors (amended answers.error?) key x := by
    by_cases errors : key = "errors"
    · rw [Response.amendedErrors, Response.amendedErrors, if_pos errors, if_pos errors,
        onItems_onItems (amended_amended oneLine.lines)]
    · rw [Response.amendedErrors, Response.amendedErrors, if_neg errors, if_neg errors]
  cases response with
  | object ms => rw [withAnswers_object, withAnswers_object, mapValues_mapValues again]
  | null | bool | number | string | array => rfl

theorem diagnostics_withAnswers (answers : ImportAnswers) (response : Json) :
    diagnostics (withAnswers answers response) =
      (diagnostics response).map (amended answers.error?) := by
  cases response with
  | object ms =>
    rw [withAnswers_object, diagnostics, diagnostics, Json.get?, Json.get?, Table.find?_mapValues]
    cases Table.find? "errors" ms with
    | none => rfl
    | some x => cases x <;> rfl
  | null | bool | number | string | array => rfl

theorem text?_amended (answer : String → Option String) (d : Json) :
    (amended answer d).text? "message" = (d.text? "message").map (withReasons answer) := by
  cases d with
  | object ms =>
    rw [amended_object, Json.text?, Json.text?, Json.get?, Json.get?, Table.find?_mapValues]
    cases Table.find? "message" ms with
    | none => rfl
    | some x => cases x <;> rfl
  | null | bool | number | string | array => rfl

theorem missingSources_withAnswers (oneLine : OneLine answers) (response : Json) :
    missingSources (withAnswers answers response) = missingSources response := by
  have found (response : Json) : missingSources response =
      (((diagnostics response).filterMap (Json.text? "message")).flatMap missingIn).eraseDups := rfl
  have messages : (diagnostics (withAnswers answers response)).filterMap (Json.text? "message") =
      ((diagnostics response).filterMap (Json.text? "message")).map (withReasons answers.error?) := by
    rw [diagnostics_withAnswers, List.filterMap_map, List.map_filterMap]
    exact congrArg (List.filterMap · _) (funext (text?_amended _))
  rw [found, found, messages, List.flatMap_map]
  simp only [missingIn_withReasons oneLine.lines]

/-- Answers change a response in the reasons of its reports and nowhere else, as it is described. If
no error has a newline, they change nothing when they are put in again, and no missing source. -/
theorem answers_change_reasons (answers : ImportAnswers) (response : Json) :
    (∀ response', ResponseChanges answers response response' ↔
      response' = withAnswers answers response) ∧
    (OneLine answers →
      withAnswers answers (withAnswers answers response) = withAnswers answers response ∧
      missingSources (withAnswers answers response) = missingSources response) := by
  refine ⟨fun _ => responseChanges_iff, fun oneLine => ⟨?_, ?_⟩⟩
  · exact withAnswers_withAnswers oneLine response
  · exact missingSources_withAnswers oneLine response

def refusedAndSupplied : ImportAnswers :=
  .ofList [("a", .error "Source \"c\" not found: no"), ("b", .contents "contract B {}")]

def diagnosed (message : String) : Json :=
  .object [("errors", .array [.object [("severity", .string "error"), ("message", .string message)]])]

def missingBoth : Json := diagnosed "Source \"a\" not found: x\nSource \"b\" not found: y"

def missingRefused : Json :=
  diagnosed "Source \"a\" not found: Source \"c\" not found: no\nSource \"b\" not found: y"

theorem answers_change_reasons_quoting : OneLine refusedAndSupplied ∧
    withAnswers refusedAndSupplied missingBoth = missingRefused ∧
    withAnswers refusedAndSupplied missingRefused = missingRefused ∧
    missingSources missingRefused = missingSources missingBoth ∧
    missingSources missingBoth = ["a", "b"] := by
  have oneLine : OneLine refusedAndSupplied := by
    intro path reason told
    have mem := SortedMap.mem_of_mem_ofList ((SortedMap.find?_eq_some_iff _).1 told)
    simp only [List.mem_cons, Prod.mk.injEq, List.not_mem_nil, or_false] at mem
    rcases mem with ⟨-, eq⟩ | ⟨-, eq⟩ <;> cases eq
    decide
  have once : withAnswers refusedAndSupplied missingBoth = missingRefused := by decide +kernel
  obtain ⟨-, settled⟩ := answers_change_reasons refusedAndSupplied missingBoth
  obtain ⟨again, missing⟩ := settled oneLine
  rw [once] at again missing
  exact ⟨oneLine, once, again, missing, by decide +kernel⟩

example : missingSources (withAnswers (.ofList [("a", .error "x\nSource \"b\" not found: y")])
    (diagnosed "Source \"a\" not found: z")) = ["a", "b"] := by decide +kernel

end ContractBuild.Imports
