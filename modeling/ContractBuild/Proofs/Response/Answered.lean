import ContractBuild.Response
import ContractBuild.Proofs.Imports.Segments
import ContractBuild.Proofs.Json.ReprintRecords

/-!
# The diagnostics of a response with answers

Answers are put into a response as a free-form value, which is printed and then read as a response.
It is accepted whenever the response was, and its diagnostics are those that were there, with the
new reasons in their two texts.
-/

namespace ContractBuild

open Json Json.Reader Json.Fields

theorem SourceLocation.reader_stable : SourceLocation.reader.Stable Eq :=
  stable_record <|
    (((stable_required string_stable).map (by rintro _ _ rfl _ _ rfl _ _ rfl; rfl)).seq
      (stable_required (whole_stable _)) (by simp)).seq (stable_required (whole_stable _)) (by simp)

theorem Diagnostic.codeReader_stable : Diagnostic.codeReader.Stable Eq := string_stable.check _

theorem Offsets.reader_lasting : Offsets.reader.Lasting :=
  stable_record <|
    ((stable_required (whole_stable _)).map (by intro _ _ _ _ _ _; trivial)).seq
      (stable_required (whole_stable _)) (by simp)

theorem LinkReferences.reader_lasting : LinkReferences.reader.Lasting :=
  Offsets.reader_lasting.list.lasting.map.map

theorem Bytecode.reader_lasting : Bytecode.reader.Lasting :=
  stable_record <|
    (((stable_defaulted string_stable rfl).map (by intro _ _ _ _ _ _ _ _ _; trivial)).seq
      (stable_optional string_stable) (by simp)).seq
      (stable_defaulted (LinkReferences.reader_lasting.option.getD trivial) trivial) (by simp)

theorem Code.reader_lasting : Code.reader.Lasting :=
  stable_record <|
    ((stable_optional Bytecode.reader_lasting).map (by intro _ _ _ _ _ _; trivial)).seq
      (stable_optional Bytecode.reader_lasting) (by simp)

theorem Contract.reader_lasting : Contract.reader.Lasting :=
  stable_record <|
    ((stable_defaulted (json_lasting.list.lasting.option.getD trivial) trivial).map
      (by intro _ _ _ _ _ _; trivial)).seq
      (stable_optional Code.reader_lasting) (by simp)

theorem SourceFile.reader_lasting : SourceFile.reader.Lasting :=
  stable_record <|
    (((stable_required (whole_stable _)).map (by intro _ _ _ _ _ _ _ _ _; trivial)).seq
      (stable_optional json_lasting) (by simp)).seq (stable_optional json_lasting) (by simp)

namespace Imports

theorem onText_eq_null_iff {f : String → String} (x : Json) : onText f x = .null ↔ x = .null := by
  cases x <;> simp [onText]

def amendedText (answer : String → Option String) (key : String) (x : Json) : Json :=
  if key = "message" ∨ key = "formattedMessage" then onText (withReasons answer) x else x

theorem amendedText_of_ne {answer : String → Option String} {key : String} (message : key ≠ "message")
    (formatted : key ≠ "formattedMessage") : amendedText answer key = id :=
  funext fun _ => if_neg (not_or_intro message formatted)

theorem turns_amendedText {α : Type} {r : Reader α} {R : α → α → Prop} (stable : r.Stable R)
    {answer : String → Option String} {key : String} {p : Json → Prop} (message : key ≠ "message")
    (formatted : key ≠ "formattedMessage") : r.Turns p (amendedText answer key) R := by
  rw [amendedText_of_ne message formatted]
  exact Turns.of_imp stable fun _ _ => trivial

theorem amendedText_eq_null_iff {answer : String → Option String} (key : String) (x : Json) :
    amendedText answer key x = .null ↔ x = .null := by
  rw [amendedText]
  split
  · exact onText_eq_null_iff x
  · rfl

theorem string_turns_amendedText {answer : String → Option String} {key : String} {p : Json → Prop}
    (text : key = "message" ∨ key = "formattedMessage") :
    string.Turns p (amendedText answer key) fun a b => p (.string a) ∧ b = withReasons answer a := by
  have same : amendedText answer key = onText (withReasons answer) := funext fun _ => if_pos text
  intro depth depth' t x a fit read given
  cases t with
  | string q =>
    obtain ⟨s, text, rfl⟩ := map_eq_ok_iff.1 read
    obtain rfl := Except.ok.inj (text.symm.trans given)
    refine ⟨withReasons answer s, ?_, fit, rfl⟩
    rw [same]
    exact text_quoted _
  | null | bool | number | array | object | broken => cases given

def amended (answer : String → Option String) (d : Json) : Json :=
  onMember "formattedMessage" (onText (withReasons answer))
    (onMember "message" (onText (withReasons answer)) d)

theorem amended_object (answer : String → Option String) (ms : List (String × Json)) :
    amended answer (.object ms) = .object (Table.mapValues (amendedText answer) ms) := by
  simp only [amended, onMember, List.map_map, Table.mapValues, Json.object.injEq]
  refine List.map_congr_left fun m _ => ?_
  by_cases message : m.1 = "message"
  · simp [amendedText, message]
  · by_cases formatted : m.1 = "formattedMessage" <;> simp [amendedText, message, formatted]

end Imports

namespace Diagnostic

def answered (answer : String → Option String) (d : Diagnostic) : Diagnostic :=
  { d with
    message := Imports.withReasons answer d.message
    formattedMessage := d.formattedMessage.map (Imports.withReasons answer) }

open Imports

theorem reader_turns_members (answer : String → Option String) (ms : List (String × Json)) :
    Diagnostic.reader.Turns
      (fun x => ∃ ms', x = .object ms' ∧ ∀ m ∈ ms', Table.find? m.1 ms = some m.2)
      (amended answer) fun d d' => d' = d.answered answer ∧
        (Json.object ms).text? "message" = some d.message := by
  -- The members are told by their keys, so that the message can be found in the object again.
  refine turns_record (p := fun key x => Table.find? key ms = some x) (amended_object answer) <|
    (((((((turns_optional (turns_amendedText SourceLocation.reader_stable (by simp) (by simp))
      (amendedText_eq_null_iff _)).map ?_).seq
      (turns_defaulted (turns_amendedText string_stable (by simp) (by simp)) rfl) (by simp)).seq
      (turns_defaulted (turns_amendedText string_stable (by simp) (by simp)) rfl) (by simp)).seq
      (turns_required (turns_amendedText (name_stable _) (by simp) (by simp))) (by simp)).seq
      (turns_optional (turns_amendedText codeReader_stable (by simp) (by simp))
        (amendedText_eq_null_iff _)) (by simp)).seq
      (turns_required (string_turns_amendedText (.inl rfl))) (by simp)).seq
      (turns_optional (string_turns_amendedText (.inr rfl)) (amendedText_eq_null_iff _)) (by simp)
  rintro _ _ (⟨⟨rfl⟩⟩ | _) _ _ rfl _ _ rfl _ _ rfl _ _ (⟨⟨rfl⟩⟩ | _) message _ ⟨found, rfl⟩ _ _
    (⟨⟨-, rfl⟩⟩ | _) <;>
  exact ⟨rfl, by simp only [text?, get?, found]; rfl⟩

theorem reader_turns (answer : String → Option String) (ds : List Json) :
    Diagnostic.reader.Turns (fun x => x ∈ ds ∧ ∃ ms, x = .object ms) (amended answer)
      fun d d' => d' = d.answered answer ∧ ∃ x ∈ ds, x.text? "message" = some d.message := by
  rintro depth depth' t _ d ⟨listed, ms, rfl⟩ read given
  have distinct : Table.Distinct ms := (t.proper_of_json depth' _ read).1.1
  obtain ⟨d', again, rfl, message⟩ := reader_turns_members answer ms depth depth' t _ d
    ⟨ms, rfl, fun m mem => Table.find?_of_mem distinct mem⟩ read given
  exact ⟨_, again, rfl, _, listed, message⟩

end Diagnostic

namespace Response

open Imports

def amendedErrors (amend : Json → Json) (key : String) (x : Json) : Json :=
  if key = "errors" then onItems amend x else x

theorem onMember_errors (amend : Json → Json) (ms : List (String × Json)) :
    onMember "errors" (onItems amend) (.object ms) =
      .object (Table.mapValues (amendedErrors amend) ms) := by
  simp only [onMember, Table.mapValues, Json.object.injEq]
  refine List.map_congr_left fun m _ => ?_
  by_cases errors : m.1 = "errors" <;> simp [amendedErrors, errors]

theorem turns_amendedErrors {α : Type} {r : Reader α} {R : α → α → Prop} (stable : r.Stable R)
    {amend : Json → Json} {key : String} {p : Json → Prop} (other : key ≠ "errors") :
    r.Turns p (amendedErrors amend key) R := by
  have same : amendedErrors amend key = id := funext fun _ => if_neg other
  rw [same]
  exact Turns.of_imp stable fun _ _ => trivial

/-- The diagnostics of a response, if this is their member, are among these and are objects. -/
def WrittenOut (ds : List Json) (key : String) (x : Json) : Prop :=
  key = "errors" → ∀ ds', x = .array ds' → ∀ d ∈ ds', d ∈ ds ∧ ∃ ms, d = .object ms

theorem reader_turns (answers : ImportAnswers) (ds : List Json) :
    Response.reader.Turns (fun x => ∃ ms, x = .object ms ∧ ∀ m ∈ ms, WrittenOut ds m.1 m.2)
      (withAnswers answers) fun raw response =>
        List.Forall₂ (fun d d' => d' = d.answered answers.error? ∧
          ∃ x ∈ ds, x.text? "message" = some d.message) raw.errors response.errors := by
  have errors : Diagnostic.reader.list.Turns (WrittenOut ds "errors") (amendedErrors _ "errors") _ :=
    ((Diagnostic.reader_turns answers.error? ds).list fun _ => rfl).of_imp fun x fit => fit rfl
  refine turns_record (onMember_errors _) <|
    (((turns_defaulted errors .nil).map ?_).seq
      (turns_defaulted (turns_amendedErrors SourceFile.reader_lasting.map (by simp)) trivial)
      (by simp)).seq
      (turns_defaulted (turns_amendedErrors Contract.reader_lasting.map.map (by simp)) trivial)
      (by simp)
  exact fun _ _ each _ _ _ _ _ _ => each

/-- A response that is written as an object, with diagnostics that are, takes answers. Each of its
messages is a text of the free-form value. -/
theorem read_withAnswers {depth depth' : Nat} {t : Tree} {found : Json} {raw : Response}
    (read : t.json depth' = .ok found) (written : ∃ ms, found = .object ms)
    (diagnosed : ∀ d ∈ diagnostics found, ∃ ms, d = .object ms)
    (given : Response.reader depth t = .ok raw) (answers : ImportAnswers) :
    ∃ response, Response.reader depth (withAnswers answers found).tree = .ok response ∧
      response.errors = raw.errors.map (Diagnostic.answered answers.error?) ∧
      ∀ d ∈ raw.errors, ∃ x ∈ diagnostics found, x.text? "message" = some d.message := by
  obtain ⟨ms, rfl⟩ := written
  have distinct : Table.Distinct ms := (t.proper_of_json depth' _ read).1.1
  have listed : ∀ m ∈ ms, WrittenOut (diagnostics (.object ms)) m.1 m.2 := by
    rintro ⟨key, x⟩ mem rfl ds rfl d inside
    have found : (Json.object ms).get? "errors" = some (.array ds) :=
      Table.find?_of_mem distinct mem
    have listed : d ∈ diagnostics (.object ms) := by
      rw [diagnostics, found]
      exact inside
    exact ⟨listed, diagnosed d listed⟩
  obtain ⟨response, again, each⟩ := reader_turns answers _ depth depth' t _ raw ⟨ms, rfl, listed⟩
    read given
  refine ⟨response, again, ?_⟩
  generalize raw.errors = errors, response.errors = errors' at each
  induction each with
  | nil => exact ⟨rfl, List.forall_mem_nil _⟩
  | cons first _ ih =>
    rw [first.1, ih.1]
    exact ⟨rfl, List.forall_mem_cons.2 ⟨first.2, ih.2⟩⟩

end Response

end ContractBuild
