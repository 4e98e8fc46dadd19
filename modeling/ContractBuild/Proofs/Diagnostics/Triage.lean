import ContractBuild.Response.Terminal
import Mathlib.Data.List.Infix

/-!
# Diagnostics in strict and in lenient mode

A diagnostic counts as the advisory if one of its texts holds the remark anywhere, whoever wrote the
characters around it. The mode decides only on which of two lists a warning comes. The fatal
diagnostics of the strict mode are the fatal ones and the warnings of the lenient mode together, in
the order of their report.
-/

namespace ContractBuild

theorem Text.contains_eq_true_iff {part s : List Char} :
    Text.contains part s = true ↔ part <:+: s := by
  induction s with
  | nil => simp [Text.contains, List.isEmpty_iff]
  | cons c s ih =>
    rw [Text.contains, Bool.or_eq_true, ih, List.infix_cons_iff, Option.isSome_iff_exists]
    exact or_congr_left (exists_congr fun t => Text.after?_eq_some_iff.trans eq_comm)

namespace Diagnostic

def HoldsAdvisory (d : Diagnostic) : Prop :=
  advisory.toList <:+: d.message.toList ∨
    ∃ text, d.formattedMessage = some text ∧ advisory.toList <:+: text.toList

variable {d : Diagnostic} {diagnostics : List Diagnostic}

theorem isAdvisory_eq_true_iff : d.isAdvisory = true ↔ d.HoldsAdvisory := by
  simp only [isAdvisory, HoldsAdvisory, Bool.or_eq_true, Text.contains_eq_true_iff,
    Option.any_eq_true]

theorem isAdvisory_eq_false_iff : d.isAdvisory = false ↔ ¬ d.HoldsAdvisory := by
  rw [← isAdvisory_eq_true_iff, Bool.not_eq_true]

theorem mem_withoutAdvisories :
    d ∈ withoutAdvisories diagnostics ↔ d ∈ diagnostics ∧ ¬ d.HoldsAdvisory := by
  rw [withoutAdvisories, List.mem_filter, Bool.not_eq_true', isAdvisory_eq_false_iff]

instance : DecidablePred HoldsAdvisory := fun _ => decidable_of_iff _ isAdvisory_eq_true_iff

def Warns (d : Diagnostic) : Prop := d.severity = .warning ∧ ¬ d.HoldsAdvisory

def Condemns (strict : Bool) (d : Diagnostic) : Prop :=
  (d.severity = .error ∨ strict = true ∧ d.severity = .warning) ∧ ¬ d.HoldsAdvisory

instance : DecidablePred Warns := fun _ => inferInstanceAs (Decidable (_ ∧ _))

instance (strict : Bool) : DecidablePred (Condemns strict) := fun _ =>
  inferInstanceAs (Decidable (_ ∧ _))

theorem condemns_strict_iff {d : Diagnostic} :
    d.Condemns true ↔ d.Condemns false ∨ d.Warns := by
  simp only [Condemns, Warns, true_and, Bool.false_eq_true, false_and, or_false]
  exact or_and_right

theorem Warns.not_condemns {d : Diagnostic} (warns : d.Warns) : ¬ d.Condemns false := by
  rintro ⟨error | ⟨strict, -⟩, -⟩
  · rw [warns.1] at error
    cases error
  · cases strict

end Diagnostic

/-- The third list is made of the other two, each in its order. -/
inductive Merged {α : Type} : List α → List α → List α → Prop
  | nil : Merged [] [] []
  | left {x : α} {xs ys zs : List α} (later : Merged xs ys zs) : Merged (x :: xs) ys (x :: zs)
  | right {y : α} {xs ys zs : List α} (later : Merged xs ys zs) : Merged xs (y :: ys) (y :: zs)

theorem merged_filter {α : Type} {p q r : α → Prop} [DecidablePred p] [DecidablePred q]
    [DecidablePred r] (either : ∀ x, r x ↔ p x ∨ q x) (apart : ∀ x, q x → ¬ p x) (xs : List α) :
    Merged (xs.filter p) (xs.filter q) (xs.filter r) := by
  induction xs with
  | nil => exact .nil
  | cons x xs ih =>
    by_cases left : p x
    · have other : ¬ q x := fun right => apart x right left
      simpa [left, other, (either x).2 (.inl left)] using ih.left
    · by_cases right : q x
      · simpa [left, right, (either x).2 (.inr right)] using ih.right
      · have neither : ¬ r x := fun h => ((either x).1 h).elim left right
        simpa [left, right, neither] using ih

namespace Triage

open Diagnostic

variable {strict quiet : Bool} {ds : List Diagnostic}

theorem fatal_ofDiagnostics :
    (ofDiagnostics strict ds).fatal = ds.filter (Condemns strict) := by
  simp only [ofDiagnostics, withoutAdvisories, List.filter_filter]
  refine List.filter_congr fun d _ => ?_
  rw [Bool.eq_iff_iff, Bool.and_eq_true, Bool.not_eq_true', isAdvisory_eq_false_iff,
    decide_eq_true_iff, Condemns]
  refine and_congr_left fun _ => ?_
  cases d.severity <;> simp [isFatal]

theorem warnings_ofDiagnostics :
    (ofDiagnostics strict ds).warnings = if strict then [] else ds.filter Warns := by
  simp only [ofDiagnostics, withoutAdvisories, List.filter_filter]
  cases strict with
  | true => simp [isLogged]
  | false =>
    refine List.filter_congr fun d _ => ?_
    rw [Bool.eq_iff_iff, Bool.and_eq_true, Bool.not_eq_true', isAdvisory_eq_false_iff,
      decide_eq_true_iff, Warns]
    simp [isLogged]

def logOf (warnings : List Diagnostic) : List String :=
  ["\nCompilation warnings encountered:\n", ",".intercalate (warnings.map formatted)]

theorem log_ofDiagnostics : (ofDiagnostics strict ds).log quiet =
    if strict = false ∧ quiet = false ∧ ∃ d ∈ ds, d.Warns then logOf (ds.filter Warns)
    else [] := by
  have some_warn : (ds.filter Warns).isEmpty = false ↔ ∃ d ∈ ds, d.Warns := by
    simp [List.isEmpty_eq_false_iff]
  rw [log, warnings_ofDiagnostics]
  cases strict with
  | true => simp
  | false =>
    cases quiet with
    | true => simp
    | false =>
      cases empty : (ds.filter Warns).isEmpty with
      | true =>
        have none : ¬ ∃ d ∈ ds, d.Warns := by
          rw [← some_warn, empty]
          decide
        simp [empty, none]
      | false => simp [empty, some_warn.1 empty, logOf, header, joinFormatted]

theorem verdict_ofDiagnostics : (ofDiagnostics strict ds).verdict =
    if ∃ d ∈ ds, d.Condemns strict then
      some (",".intercalate ((ds.filter (Condemns strict)).map formatted)) else none := by
  rw [verdict, fatal_ofDiagnostics]
  by_cases some_fatal : ∃ d ∈ ds, d.Condemns strict
  · have filled : (ds.filter (Condemns strict)).isEmpty = false := by
      simpa [List.isEmpty_eq_false_iff] using some_fatal
    simp [filled, some_fatal, joinFormatted]
  · have empty : (ds.filter (Condemns strict)).isEmpty = true := by
      simpa [List.isEmpty_iff] using some_fatal
    simp [empty, some_fatal]

theorem merged_fatal (ds : List Diagnostic) :
    Merged (ofDiagnostics false ds).fatal (ofDiagnostics false ds).warnings
      (ofDiagnostics true ds).fatal := by
  rw [fatal_ofDiagnostics, fatal_ofDiagnostics, warnings_ofDiagnostics, if_neg (by decide)]
  exact merged_filter (fun _ => condemns_strict_iff) (fun _ => Warns.not_condemns) ds

end Triage
end ContractBuild
