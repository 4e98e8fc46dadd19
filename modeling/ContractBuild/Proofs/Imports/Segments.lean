import ContractBuild.Imports
import Mathlib.Data.List.Infix
import Mathlib.Data.List.TakeWhile

/-!
# The segments of a message

A message is cut into characters and reports of missing sources from left to right, and the segments
put together are the message again. A report is found exactly where one stands: behind its opening a
name without quotation marks, behind that the rest of the line. Nothing is found in front of the
first opening, and a message that reports one source is found to report exactly this source.
-/

namespace ContractBuild.Imports

namespace Segment

def EndsLine (rest : List Char) : Prop := ∀ c ∈ rest.head?, c = '\n'

/-- A report that the search finds as it is written. -/
structure Sound (path reason : List Char) : Prop where
  named : path ≠ []
  unquoted : '"' ∉ path
  line : '\n' ∉ reason

section

variable {path reason s rest : List Char} {c d : Char}

theorem span_append (clear : d ∉ s) (stop : ∀ c ∈ rest.head?, c = d) :
    (s ++ rest).takeWhile (· ≠ d) = s ∧ (s ++ rest).dropWhile (· ≠ d) = rest := by
  have all : ∀ c ∈ s, decide (c ≠ d) = true := fun c mem => decide_eq_true fun eq => clear (eq ▸ mem)
  rw [List.takeWhile_append_of_pos all, List.dropWhile_append_of_pos all]
  cases rest with
  | nil => simp
  | cons c rest =>
    obtain rfl := stop c rfl
    simp

theorem head_dropWhile (s : List Char) : ∀ c ∈ (s.dropWhile (· ≠ d)).head?, c = d := by
  intro c mem
  have stop := List.head?_dropWhile_not (fun c => decide (c ≠ d)) s
  rw [Option.mem_def] at mem
  rw [mem] at stop
  simpa using stop

theorem report?_eq_some_iff : report? s = some (path, reason) ↔
    Sound path reason ∧ ∃ rest, s = (missing path reason).chars ++ rest ∧ EndsLine rest := by
  simp only [report?, Option.bind_eq_bind, Option.bind_eq_some_iff, Text.after?_eq_some_iff,
    Option.ite_none_left_eq_some, Option.some.injEq, Prod.mk.injEq, List.isEmpty_iff]
  constructor
  · rintro ⟨behind, rfl, later, split, named, rfl, rfl⟩
    refine ⟨⟨named, fun mem => ?_, fun mem => ?_⟩, later.dropWhile (· ≠ '\n'), ?_,
      head_dropWhile later⟩
    · simpa using List.mem_takeWhile_imp mem
    · simpa using List.mem_takeWhile_imp mem
    · have name := List.takeWhile_append_dropWhile (p := (· ≠ '"')) (l := behind)
      rw [split] at name
      simp only [chars, List.append_assoc, List.takeWhile_append_dropWhile]
      rw [name]
  · rintro ⟨⟨named, unquoted, line⟩, rest, rfl, ends⟩
    have quote : ∀ c ∈ (middle ++ reason ++ rest).head?, c = '"' := by
      rintro c ⟨⟩
      rfl
    have name := span_append unquoted quote
    have whole := span_append line ends
    refine ⟨path ++ (middle ++ reason ++ rest), by simp [chars], reason ++ rest, ?_, ?_⟩
    · rw [name.2, List.append_assoc]
    · rw [name.1, whole.1]
      exact ⟨named, rfl, rfl⟩

theorem allFrom_eq (skip : Nat) (s : List Char) : allFrom skip s = all (s.drop skip) := by
  induction s generalizing skip with
  | nil => cases skip <;> rfl
  | cons c s ih =>
    cases skip with
    | zero => rfl
    | succ skip => exact ih skip

theorem all_other (none : report? (c :: s) = none) : all (c :: s) = other c :: all s := by
  rw [all, allFrom, front, none]
  exact congrArg _ (allFrom_eq 0 s)

theorem all_missing (sound : Sound path reason) (ends : EndsLine rest) :
    all ((missing path reason).chars ++ rest) = missing path reason :: all rest := by
  have found := report?_eq_some_iff.2 ⟨sound, rest, rfl, ends⟩
  have length : (missing path reason).chars.length = ((missing path reason).chars.tail).length + 1 := rfl
  change allFrom 0 ('S' :: ((missing path reason).chars.tail ++ rest)) = _
  change report? ('S' :: ((missing path reason).chars.tail ++ rest)) = _ at found
  rw [allFrom, front, found, allFrom_eq]
  dsimp only
  rw [length, Nat.add_sub_cancel, List.drop_left]

theorem all_cases (c : Char) (s : List Char) :
    (∃ path reason rest, Sound path reason ∧ EndsLine rest ∧
      c :: s = (missing path reason).chars ++ rest ∧
      all (c :: s) = missing path reason :: all rest) ∨ all (c :: s) = other c :: all s := by
  cases found : report? (c :: s) with
  | none => exact .inr (all_other found)
  | some report =>
    obtain ⟨sound, rest, eq, ends⟩ := report?_eq_some_iff.1 found
    refine .inl ⟨report.1, report.2, rest, sound, ends, eq, ?_⟩
    rw [eq]
    exact all_missing sound ends

theorem flatMap_chars_all (s : List Char) : (all s).flatMap chars = s := by
  induction length : s.length using Nat.strongRecOn generalizing s with
  | ind n ih =>
    subst length
    cases s with
    | nil => rfl
    | cons c s =>
      rcases all_cases c s with ⟨path, reason, rest, -, -, eq, cut⟩ | cut
      · have shorter : rest.length < (c :: s).length := by
          rw [eq, List.length_append]
          exact Nat.lt_add_of_pos_left (Nat.succ_pos _)
        rw [cut, List.flatMap_cons, ih _ shorter rest rfl, eq]
      · rw [cut, List.flatMap_cons, ih _ (Nat.lt_succ_self _) s rfl]
        rfl

theorem report?_eq_none (absent : ¬ opening <+: s) : report? s = none := by
  rw [Option.eq_none_iff_forall_not_mem]
  intro report mem
  obtain ⟨-, rest, eq, -⟩ := report?_eq_some_iff.1 mem
  refine absent ⟨report.1 ++ middle ++ report.2 ++ rest, ?_⟩
  simp only [eq, chars, List.append_assoc]

theorem not_opening_prefix (some : s ≠ []) (absent : ¬ opening <+: s) (next : opening <+: rest) :
    ¬ opening <+: s ++ rest := by
  rintro start
  have short : s.length < opening.length := by
    by_contra long
    exact absent (List.prefix_of_prefix_length_le start (List.prefix_append _ _) (by omega))
  have positive := List.length_pos_iff.2 some
  obtain ⟨later, rfl⟩ := next
  obtain ⟨tail, eq⟩ := start
  have inside : opening[s.length]? = Option.some 'S' := by
    have same := congrArg (·[s.length]?) eq
    rwa [List.getElem?_append_left short, List.getElem?_append_right (Nat.le_refl _),
      Nat.sub_self] at same
  -- The next opening begins with a letter that comes in an opening only once.
  have apart : ∀ n < opening.length, 0 < n → opening[n]? ≠ Option.some 'S' := by decide
  exact apart s.length short positive inside

theorem all_append (absent : ¬ opening <:+: s) (next : opening <+: rest) :
    all (s ++ rest) = s.map other ++ all rest := by
  induction s with
  | nil => rfl
  | cons c s ih =>
    have behind : ¬ opening <:+: s := fun h => absent (List.infix_cons h)
    have front : ¬ opening <+: c :: (s ++ rest) :=
      not_opening_prefix (List.cons_ne_nil c s) (fun h => absent h.isInfix) next
    rw [List.cons_append, all_other (report?_eq_none front), ih behind]
    rfl

theorem opening_prefix_chars (path reason rest : List Char) :
    opening <+: (missing path reason).chars ++ rest := by
  simp only [chars, List.append_assoc]
  exact List.prefix_append _ _

theorem all_report (absent : ¬ opening <:+: s) (sound : Sound path reason) (post : List Char) :
    all (s ++ ((missing path reason).chars ++ post)) = s.map other ++
      missing path (reason ++ post.takeWhile (· ≠ '\n')) :: all (post.dropWhile (· ≠ '\n')) := by
  have line : '\n' ∉ reason ++ post.takeWhile (· ≠ '\n') := by
    intro mem
    rcases List.mem_append.1 mem with mem | mem
    · exact sound.line mem
    · simpa using List.mem_takeWhile_imp mem
  have whole : (missing path reason).chars ++ post =
      (missing path (reason ++ post.takeWhile (· ≠ '\n'))).chars ++ post.dropWhile (· ≠ '\n') := by
    simp only [chars, List.append_assoc, List.takeWhile_append_dropWhile]
  rw [whole, all_append absent (opening_prefix_chars _ _ _),
    all_missing ⟨sound.named, sound.unquoted, line⟩ (head_dropWhile post)]

theorem all_of_no_opening (absent : ¬ opening <:+: s) : all s = s.map other := by
  induction s with
  | nil => rfl
  | cons c s ih =>
    have behind : ¬ opening <:+: s := fun h => absent (List.infix_cons h)
    rw [all_other (report?_eq_none fun h => absent h.isInfix), ih behind]
    rfl

end

def answered (answer : String → Option String) : Segment → List Char
  | other c => [c]
  | missing path reason =>
    (missing path (((answer (.ofList path)).map String.toList).getD reason)).chars

theorem answered_of_none {answer : String → Option String} {path reason : List Char}
    (silent : answer (.ofList path) = none) :
    (missing path reason).answered answer = (missing path reason).chars := by
  rw [answered, silent]
  rfl

theorem answered_of_some {answer : String → Option String} {path reason : List Char} {new : String}
    (told : answer (.ofList path) = some new) :
    (missing path reason).answered answer = (missing path new.toList).chars := by
  rw [answered, told]
  rfl

theorem flatMap_answered_other (answer : String → Option String) (s : List Char) :
    (s.map other).flatMap (answered answer) = s := by
  rw [List.flatMap_map]
  exact List.flatMap_singleton' s

end Segment

theorem withReasons_eq (answer : String → Option String) (message : String) :
    withReasons answer message =
      .ofList ((Segment.all message.toList).flatMap (Segment.answered answer)) := by
  refine congrArg (fun f => String.ofList (List.flatMap f _)) (funext fun segment => ?_)
  cases segment with
  | other c => rfl
  | missing path reason =>
    cases told : answer (.ofList path) with
    | none => simp only [told, Segment.answered_of_none told]
    | some new => simp only [told, Segment.answered_of_some told]

def notFound (name reason : String) : String :=
  "Source \"" ++ name ++ "\" not found: " ++ reason

def Quotable (name : String) : Prop := name ≠ "" ∧ '"' ∉ name.toList

def diagnostics (response : Json) : List Json := (response.get? "errors" >>= Json.items?).getD []

theorem Quotable.sound {name reason : String} (quotable : Quotable name)
    (line : '\n' ∉ reason.toList) : Segment.Sound name.toList reason.toList :=
  ⟨fun eq => quotable.1 (String.toList_eq_nil_iff.1 eq), quotable.2, line⟩

theorem toList_notFound (name reason : String) :
    (notFound name reason).toList = (Segment.missing name.toList reason.toList).chars := by
  simp only [notFound, String.toList_append]
  rfl

theorem missingIn_notFound {name reason : String} (quotable : Quotable name)
    (line : '\n' ∉ reason.toList) : missingIn (notFound name reason) = [name] := by
  have cut : Segment.all ((Segment.missing name.toList reason.toList).chars ++ []) = _ :=
    Segment.all_missing (quotable.sound line) nofun
  rw [List.append_nil, ← toList_notFound] at cut
  rw [missingIn, cut]
  simp [Segment.path?, Segment.all, Segment.allFrom]

theorem mem_missingSources {response : Json} {path : String} :
    path ∈ missingSources response ↔ ∃ d ∈ diagnostics response, ∃ message,
      d.text? "message" = some message ∧ path ∈ missingIn message := by
  simp only [missingSources, List.mem_eraseDups, List.mem_flatMap, List.mem_filterMap, diagnostics]
  constructor
  · intro h
    obtain ⟨message, ⟨d, mem, text⟩, named⟩ := h
    exact ⟨d, mem, message, text, named⟩
  · intro h
    obtain ⟨d, mem, message, text, named⟩ := h
    exact ⟨message, ⟨d, mem, text⟩, named⟩

end ContractBuild.Imports
