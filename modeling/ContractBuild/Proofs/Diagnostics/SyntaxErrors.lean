import ContractBuild.Proofs.Diagnostics.Rejection
import ContractBuild.Proofs.Imports.Reasons
import ContractBuild.Proofs.Imports.Refusal
import ContractBuild.Proofs.Registry.CachePaths

/-!
# Errors among the imports

The imports of a source are read from diagnostics, and a diagnostic counts as an import if its text
holds the key that imports are refused with. That text quotes lines of the source. So any error
makes the search fail as long as the source has neither the key nor the advisory in it, and for each
source that has one of them there is an error that goes unnoticed.
-/

namespace ContractBuild

namespace Text

variable {mark : Char} {word s part : List Char}

theorem parts_induction (mark : Char) {P : List Char → Prop} (whole : ∀ s, mark ∉ s → P s)
    (cut : ∀ part rest, mark ∉ part → P rest → P (part ++ mark :: rest)) (s : List Char) : P s := by
  induction long : s.length using Nat.strong_induction_on generalizing s with
  | h n ih =>
    cases found : splitOnce mark s with
    | none => exact whole s (splitOnce_eq_none_iff.1 found)
    | some parts =>
      obtain ⟨part, rest⟩ := parts
      obtain ⟨rfl, free⟩ := splitOnce_eq_some_iff.1 found
      refine cut part rest free (ih rest.length ?_ rest rfl)
      rw [← long, List.length_append, List.length_cons]
      omega

theorem split_cut (free : mark ∉ part) : split mark (part ++ mark :: s) = part :: split mark s := by
  rw [split_append, split_of_not_mem free, List.singleton_append]

theorem not_mem_part (mem : part ∈ split mark s) : mark ∉ part := by
  induction s using parts_induction mark with
  | whole s free =>
    rw [split_of_not_mem free, List.mem_singleton] at mem
    rwa [mem]
  | cut first rest free ih =>
    rw [split_cut free, List.mem_cons] at mem
    rcases mem with rfl | mem
    · exact free
    · exact ih mem

theorem infix_iff_exists_part (clear : mark ∉ word) :
    word <:+: s ↔ ∃ part ∈ split mark s, word <:+: part := by
  induction s using parts_induction mark with
  | whole s free => simp [split_of_not_mem free]
  | cut first rest free ih => simp [split_cut free, Imports.infix_append_cons_iff clear, ih]

end Text

namespace SingleSource

open Imports

variable {σ : Type} {c : Compiler σ} {body : String} {d : Diagnostic} {response : Response}
  {errors : List Diagnostic} {s s' : σ} {notes : List Note}

def HoldsKey (d : Diagnostic) : Prop := importKey.toList <:+: d.formatted.toList

theorem isImportReport_eq_true_iff : isImportReport d = true ↔ HoldsKey d :=
  Text.contains_eq_true_iff

theorem importsOf_rejected_iff : (∃ messages, importsOf errors = .error (.rejected messages)) ↔
    ∃ d ∈ errors, ¬ d.HoldsAdvisory ∧ ¬ HoldsKey d := by
  unfold importsOf
  dsimp only
  cases found : (Diagnostic.withoutAdvisories errors).find? fun d => !isImportReport d with
  | none =>
    simp only [List.find?_eq_none, Bool.not_eq_true', Bool.not_eq_false, isImportReport_eq_true_iff,
      Diagnostic.mem_withoutAdvisories] at found
    refine ⟨fun ⟨_, eq⟩ => (nomatch eq), fun ⟨d, mem, plain, unkeyed⟩ => ?_⟩
    exact absurd (found d ⟨mem, plain⟩) unkeyed
  | some d =>
    obtain ⟨mem, plain⟩ := Diagnostic.mem_withoutAdvisories.1 (List.mem_of_find?_eq_some found)
    have unkeyed : ¬ HoldsKey d := by
      rw [← isImportReport_eq_true_iff]
      simpa using List.find?_some found
    exact ⟨fun _ => ⟨d, mem, plain, unkeyed⟩, fun _ => ⟨d.formatted, rfl⟩⟩

theorem imports_result (body : String)
    (answered : (c.invoke (importsRequest body) (some (ImportLoop.refusing importKey))).run s =
      ⟨.ok response, notes, s'⟩) :
    ((imports c body).run s).result = importsOf response.errors := by
  change ((c.invoke (importsRequest body) (some (ImportLoop.refusing importKey)) >>= fun response =>
    Job.ofExcept (importsOf response.errors) >>= fun found =>
      Job.report (.unresolvedImports found) >>= fun _ => pure found).run s).result = _
  rw [Job.run_bind, answered]
  dsimp only
  cases importsOf response.errors <;> rfl

/-- Neither what an unreleased compiler remarks about itself nor the report of a refused import. -/
structure Stray (d : Diagnostic) : Prop where
  unremarked : ¬ Diagnostic.advisory.toList <:+: d.message.toList
  unreported : ∀ path, d.message ≠ notFound path importKey

def words : List (List Char) := [importKey.toList, Diagnostic.advisory.toList]

def lines (body : String) : List (List Char) :=
  Text.split '\n' (body ++ "\n\nimport '" ++ sentinel ++ "';\n").toList

/-- Each line of the text is in words of the compiler, or it is a line of the source. -/
def Quotes (body : String) (d : Diagnostic) : Prop :=
  ∀ line ∈ Text.split '\n' d.formatted.toList,
    (∀ word ∈ words, ¬ word <:+: line) ∨ line ∈ lines body

theorem word_line {word : List Char} (mem : word ∈ words) : '\n' ∉ word := by
  revert word
  decide

theorem lines_eq (body : String) : lines body = Text.split '\n' body.toList ++
    [[], ("import '" ++ sentinel ++ "';").toList, []] := by
  have text : (body ++ "\n\nimport '" ++ sentinel ++ "';\n").toList =
      body.toList ++ '\n' :: "\nimport '__McashBox__NotFound.sol';\n".toList := by
    simp only [String.toList_append, List.append_assoc]
    rfl
  rw [lines, text, Text.split_append]
  rfl

theorem exists_line_iff {word : List Char} (mem : word ∈ words) :
    (∃ line ∈ lines body, word <:+: line) ↔ word <:+: body.toList := by
  have free : ∀ line ∈ [[], ("import '" ++ sentinel ++ "';").toList, []], ¬ word <:+: line := by
    simp only [← Text.contains_eq_true_iff]
    revert word
    decide
  rw [Text.infix_iff_exists_part (word_line mem), lines_eq]
  constructor
  · intro ⟨line, among, inside⟩
    rcases List.mem_append.1 among with among | among
    · exact ⟨line, among, inside⟩
    · exact absurd inside (free line among)
  · intro ⟨line, among, inside⟩
    exact ⟨line, List.mem_append_left _ among, inside⟩

theorem Quotes.free (quotes : Quotes body d) {word : List Char} (mem : word ∈ words)
    (free : ¬ word <:+: body.toList) : ¬ word <:+: d.formatted.toList := by
  rw [Text.infix_iff_exists_part (word_line mem)]
  intro ⟨line, among, inside⟩
  rcases quotes line among with own | quoted
  · exact own word mem inside
  · exact free ((exists_line_iff mem).1 ⟨line, quoted, inside⟩)

theorem Stray.visible (stray : Stray d) (quotes : Quotes body d)
    (free : ∀ word ∈ words, ¬ word <:+: body.toList) : ¬ d.HoldsAdvisory ∧ ¬ HoldsKey d := by
  constructor
  · rintro (inside | ⟨text, formatted, inside⟩)
    · exact stray.unremarked inside
    · have eq : d.formatted = text := by rw [Diagnostic.formatted, formatted, Option.getD_some]
      exact quotes.free (by simp [words]) (free _ (by simp [words])) (eq ▸ inside)
  · exact quotes.free (by simp [words]) (free _ (by simp [words]))

def errorAt (line : List Char) : Diagnostic :=
  .brief .error "Expected primary expression."
    (.ofList ("1:1: Expected primary expression.".toList ++ '\n' :: line))

theorem errorAt_stray (line : List Char) : Stray (errorAt line) where
  unremarked := by
    change ¬ Diagnostic.advisory.toList <:+: "Expected primary expression.".toList
    rw [← Text.contains_eq_true_iff]
    decide
  unreported path same := by
    have first : ("Expected primary expression.".toList).head? =
        (notFound path importKey).toList.head? := congrArg (·.toList.head?) same
    rw [toList_notFound] at first
    cases first

theorem toList_errorAt (line : List Char) : (errorAt line).formatted.toList =
    "1:1: Expected primary expression.".toList ++ '\n' :: line := String.toList_ofList

theorem errorAt_quotes {line : List Char} (among : line ∈ lines body) : Quotes body (errorAt line) := by
  have own : ∀ word ∈ words, ¬ word <:+: "1:1: Expected primary expression.".toList := by
    simp only [← Text.contains_eq_true_iff]
    decide
  intro part mem
  rw [toList_errorAt, Text.split_cut (by decide), Text.split_of_not_mem (Text.not_mem_part among),
    List.mem_pair] at mem
  rcases mem with rfl | rfl
  · exact .inl own
  · exact .inr among

theorem errorAt_hidden {line word : List Char} (mem : word ∈ words) (inside : word <:+: line) :
    (errorAt line).HoldsAdvisory ∨ HoldsKey (errorAt line) := by
  have within : word <:+: (errorAt line).formatted.toList := by
    rw [toList_errorAt, Imports.infix_append_cons_iff (word_line mem)]
    exact .inr inside
  simp only [words, List.mem_cons, List.not_mem_nil, or_false] at mem
  rcases mem with rfl | rfl
  · exact .inr within
  · exact .inl (.inr ⟨_, rfl, within⟩)

/-- The search fails exactly if there is a diagnostic with neither the key nor the advisory in it.
So a diagnostic that is neither a report nor the advisory makes it fail for the sources that hold
neither of them, whatever lines it quotes, and for no other source is this always so. -/
theorem strays_rejected_iff (body : String) :
    (∀ (σ : Type) (c : Compiler σ) (s s' : σ) (notes : List Note) (response : Response),
      (c.invoke (importsRequest body) (some (ImportLoop.refusing importKey))).run s =
        ⟨.ok response, notes, s'⟩ →
      ((∃ messages, ((imports c body).run s).result = .error (.rejected messages)) ↔
        ∃ d ∈ response.errors, ¬ d.HoldsAdvisory ∧ ¬ HoldsKey d)) ∧
    ((∀ (σ : Type) (c : Compiler σ) (s s' : σ) (notes : List Note) (response : Response),
        (c.invoke (importsRequest body) (some (ImportLoop.refusing importKey))).run s =
          ⟨.ok response, notes, s'⟩ →
        (∃ d ∈ response.errors, Stray d ∧ Quotes body d) →
        ∃ messages, ((imports c body).run s).result = .error (.rejected messages)) ↔
      ∀ word ∈ words, ¬ word <:+: body.toList) := by
  have exact : ∀ (σ : Type) (c : Compiler σ) (s s' : σ) (notes : List Note) (response : Response),
      (c.invoke (importsRequest body) (some (ImportLoop.refusing importKey))).run s =
        ⟨.ok response, notes, s'⟩ →
      ((∃ messages, ((imports c body).run s).result = .error (.rejected messages)) ↔
        ∃ d ∈ response.errors, ¬ d.HoldsAdvisory ∧ ¬ HoldsKey d) := by
    intro σ c s s' notes response answered
    rw [imports_result body answered]
    exact importsOf_rejected_iff
  refine ⟨exact, ⟨fun law word mem inside => ?_, fun free => ?_⟩⟩
  · obtain ⟨line, among, within⟩ := (exists_line_iff mem).2 inside
    have brief : ∀ d ∈ [errorAt line], d.IsBrief := by simp [errorAt, Diagnostic.isBrief_brief]
    have answered := invoke_answering brief (importsRequest body)
      (some (ImportLoop.refusing importKey))
    have rejected := law Unit (answering [errorAt line]) () () [] _ answered
      ⟨errorAt line, List.mem_singleton_self _, errorAt_stray line, errorAt_quotes among⟩
    obtain ⟨d, mem', plain, unkeyed⟩ := (exact _ _ _ _ _ _ answered).1 rejected
    obtain rfl := List.mem_singleton.1 mem'
    exact (errorAt_hidden mem within).elim plain unkeyed
  · intro σ c s s' notes response answered ⟨d, mem, stray, quotes⟩
    exact (exact σ c s s' notes response answered).2 ⟨d, mem, stray.visible quotes free⟩

theorem strays_rejected_iff_harmless : (∀ word ∈ words, ¬ word <:+: "uint x = ;".toList) ∧
    ∃ messages, ((imports (answering [errorAt "uint x = ;".toList]) "uint x = ;").run ()).result =
      .error (.rejected messages) := by
  have free : ∀ word ∈ words, ¬ word <:+: "uint x = ;".toList := by
    simp only [← Text.contains_eq_true_iff]
    decide
  have brief : ∀ d ∈ [errorAt "uint x = ;".toList], d.IsBrief := by
    simp [errorAt, Diagnostic.isBrief_brief]
  have among : "uint x = ;".toList ∈ lines "uint x = ;" := by
    rw [lines_eq]
    decide
  exact ⟨free, (strays_rejected_iff "uint x = ;").2.2 free Unit (answering _) () () [] _
    (invoke_answering brief _ _) ⟨_, List.mem_singleton_self _, errorAt_stray _, errorAt_quotes among⟩⟩

/-- The error is about a variable with the name of the key, and no import is found. -/
theorem error_taken_for_import :
    Stray (errorAt "uint MCASHBOX_IMPORT = ;".toList) ∧
    Quotes "uint MCASHBOX_IMPORT = ;" (errorAt "uint MCASHBOX_IMPORT = ;".toList) ∧
    ((answering [errorAt "uint MCASHBOX_IMPORT = ;".toList]).invoke
      (importsRequest "uint MCASHBOX_IMPORT = ;") (some (ImportLoop.refusing importKey))).run () =
        ⟨.ok ⟨[errorAt "uint MCASHBOX_IMPORT = ;".toList], .empty, .empty⟩, [], ()⟩ ∧
    ((imports (answering [errorAt "uint MCASHBOX_IMPORT = ;".toList])
      "uint MCASHBOX_IMPORT = ;").run ()).result = .ok [] := by
  have brief : ∀ d ∈ [errorAt "uint MCASHBOX_IMPORT = ;".toList], d.IsBrief := by
    simp [errorAt, Diagnostic.isBrief_brief]
  have answered := invoke_answering brief (importsRequest "uint MCASHBOX_IMPORT = ;")
    (some (ImportLoop.refusing importKey))
  refine ⟨errorAt_stray _, errorAt_quotes ?_, answered, ?_⟩
  · rw [lines_eq]
    decide
  · rw [imports_result _ answered]
    decide +kernel

end SingleSource
end ContractBuild
