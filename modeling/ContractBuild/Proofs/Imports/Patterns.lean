import ContractBuild.Proofs.Imports.Successive

/-!
# Sources and imports by their patterns

The sources that a message reports missing are named at the leftmost place of a report, then at the
leftmost one behind the line of this report, and so on; whatever the message is, this comes to an
end and gives one list. An import that is quoted counts only in a message without a report, and is
the one at the leftmost place where an import statement stands.
-/

namespace ContractBuild.Imports

open Segment

variable {P : List Char → Prop} {s u here path rest : List Char} {paths : List (List Char)}
  {c : Char}

/-- Of all places of a text at which the rest is as `P` says, the one with the longest rest. -/
structure Leftmost (P : List Char → Prop) (s here : List Char) : Prop where
  place : here <:+ s
  holds : P here
  first : ∀ u, u <:+ s → P u → u <:+ here

theorem Leftmost.unique {here' : List Char} (left : Leftmost P s here) (left' : Leftmost P s here') :
    here = here' := by
  have inside := left'.first here left.place left.holds
  have around := left.first here' left'.place left'.holds
  exact inside.eq_of_length_le around.length_le

theorem leftmost_self (holds : P s) : Leftmost P s s :=
  ⟨List.suffix_rfl, holds, fun _ suffix _ => suffix⟩

theorem leftmost_cons_of_not (absent : ¬ P (c :: s)) :
    Leftmost P (c :: s) here ↔ Leftmost P s here := by
  have behind {u : List Char} (suffix : u <:+ c :: s) (holds : P u) : u <:+ s := by
    rcases List.suffix_cons_iff.1 suffix with rfl | suffix
    · exact absurd holds absent
    · exact suffix
  constructor
  · intro ⟨place, holds, first⟩
    refine ⟨behind place holds, holds, fun u suffix => first u ?_⟩
    exact suffix.trans (List.suffix_cons c s)
  · intro ⟨place, holds, first⟩
    exact ⟨place.trans (List.suffix_cons c s), holds,
      fun u suffix hu => first u (behind suffix hu) hu⟩

/-- The names that are read from a text: at the leftmost report, and then behind its line. -/
inductive Names : List Char → List (List Char) → Prop
  | none {s : List Char} (absent : ∀ u, u <:+ s → ¬ Begins u) : Names s []
  | next {s path rest : List Char} {paths : List (List Char)} (named : path ≠ [])
      (unquoted : '"' ∉ path) (first : Leftmost Begins s (opening ++ path ++ middle ++ rest))
      (later : Names (rest.dropWhile (· ≠ '\n')) paths) : Names s (path :: paths)

theorem path_unique {path' rest' : List Char} (unquoted : '"' ∉ path) (unquoted' : '"' ∉ path')
    (eq : opening ++ path ++ middle ++ rest = opening ++ path' ++ middle ++ rest') :
    path = path' ∧ rest = rest' := by
  simp only [List.append_assoc, List.append_cancel_left_eq] at eq
  have quote (rest : List Char) : ∀ c ∈ (middle ++ rest).head?, c = '"' := by
    rintro c ⟨⟩
    rfl
  obtain ⟨taken, dropped⟩ := span_append unquoted (quote rest)
  obtain ⟨taken', dropped'⟩ := span_append unquoted' (quote rest')
  rw [eq] at taken dropped
  exact ⟨taken.symm.trans taken', List.append_cancel_left (dropped.symm.trans dropped')⟩

theorem Names.unique {paths' : List (List Char)} (names : Names s paths) (names' : Names s paths') :
    paths = paths' := by
  induction names generalizing paths' with
  | none absent =>
    cases names' with
    | none => rfl
    | next _ _ first => exact absurd first.holds (absent _ first.place)
  | next _ unquoted first _ ih =>
    cases names' with
    | none absent => exact absurd first.holds (absent _ first.place)
    | next _ unquoted' first' later' =>
      obtain ⟨rfl, rfl⟩ := path_unique unquoted unquoted' (first.unique first')
      rw [ih later']

theorem Silent.leftmost {gap : List Char} (silent : Silent gap here) (begins : Begins here) :
    Leftmost Begins (gap ++ here) here := by
  refine ⟨List.suffix_append gap here, begins, fun u suffix found => ?_⟩
  rcases List.suffix_or_suffix_of_suffix suffix (List.suffix_append gap here) with inside | around
  · exact inside
  · obtain ⟨more, rfl⟩ := around
    by_cases empty : more = []
    · rw [empty, List.nil_append]
    · exact absurd found (silent more (List.suffix_append_self_iff.1 suffix) empty)

theorem Successive.names {tail : List Char} {reports : List Report}
    (successive : Successive s reports tail) : Names s (reports.map Report.path) := by
  induction successive with
  | @tail s silent =>
    refine .none fun u suffix begins => ?_
    by_cases empty : u = []
    · subst empty
      obtain ⟨path, rest, -, -, eq⟩ := begins
      cases eq
    · exact silent u suffix empty (by rwa [List.append_nil])
  | @report r rest tail reports first sound ends later ih =>
    have whole : r.body ++ rest = opening ++ r.path ++ middle ++ (r.reason ++ rest) := by
      simp only [Report.body, Segment.chars, List.append_assoc]
    have left : Leftmost Begins (r.chars ++ rest)
        (opening ++ r.path ++ middle ++ (r.reason ++ rest)) := by
      rw [← whole, Report.chars, List.append_assoc]
      exact first.leftmost (begins_missing sound rest)
    have line := (span_append sound.line ends).2
    exact .next sound.named sound.unquoted left (line.symm ▸ ih)

/-- Here stands an import statement: a clause, a path between two quotation marks, which may be of
different kinds, and a semicolon. -/
def States (s path : List Char) : Prop :=
  ∃ (clause rest : List Char) (opens closes : Char),
    s = "import".toList ++ clause ++ opens :: path ++ closes :: ';' :: rest ∧
    (clause ≠ [] ∧ ∀ c ∈ clause, isQuote c = false) ∧ (path ≠ [] ∧ ∀ c ∈ path, isQuote c = false) ∧
    isQuote opens = true ∧ isQuote closes = true

theorem span_quote_iff {part : List Char} (rest : List Char) :
    s.takeWhile (fun c => !isQuote c) = part ∧ s.dropWhile (fun c => !isQuote c) = c :: rest ↔
      s = part ++ c :: rest ∧ (∀ x ∈ part, isQuote x = false) ∧ isQuote c = true := by
  constructor
  · rintro ⟨rfl, dropped⟩
    have whole := List.takeWhile_append_dropWhile (p := fun c => !isQuote c) (l := s)
    have stop := List.head?_dropWhile_not (fun c => !isQuote c) s
    rw [dropped] at whole stop
    exact ⟨whole.symm, fun x mem => by simpa using List.mem_takeWhile_imp mem, by simpa using stop⟩
  · rintro ⟨rfl, free, quote⟩
    have all : ∀ x ∈ part, (!isQuote x) = true := fun x mem => by rw [free x mem]; rfl
    rw [List.takeWhile_append_of_pos all, List.dropWhile_append_of_pos all]
    simp [quote]

theorem statement?_eq_some_iff : statement? s = some path ↔ States s path := by
  simp only [statement?, Option.bind_eq_bind, Option.bind_eq_some_iff, Text.after?_eq_some_iff]
  constructor
  · rintro ⟨behind, rfl, found⟩
    split at found
    · rename_i opens later opened
      split at found
      · rename_i closes rest closed
        simp only [Option.ite_none_left_eq_some, Bool.or_eq_true, List.isEmpty_iff, not_or,
          Option.some.injEq] at found
        generalize taken : behind.takeWhile (fun c => !isQuote c) = clause at found
        obtain ⟨⟨stated, named⟩, taken'⟩ := found
        obtain ⟨rfl, clear, opening⟩ := (span_quote_iff _).1 ⟨taken, opened⟩
        obtain ⟨rfl, unquoted, closing⟩ := (span_quote_iff _).1 ⟨taken', closed⟩
        refine ⟨clause, rest, opens, closes, ?_, ⟨stated, clear⟩, ⟨?_, unquoted⟩, opening, closing⟩
        · simp only [List.append_assoc, List.cons_append]
          rfl
        · exact taken' ▸ named
      · cases found
    · cases found
  · rintro ⟨clause, rest, opens, closes, rfl, ⟨stated, clear⟩, ⟨named, unquoted⟩, opening, closing⟩
    have first := (span_quote_iff (path ++ closes :: ';' :: rest)).2 ⟨rfl, clear, opening⟩
    have second := (span_quote_iff (';' :: rest)).2 ⟨rfl, unquoted, closing⟩
    refine ⟨clause ++ opens :: (path ++ closes :: ';' :: rest), ?_, ?_⟩
    · simp only [List.append_assoc, List.cons_append]
      rfl
    · rw [first.2]
      dsimp only
      rw [second.2, first.1, second.1, if_neg]
      · rfl
      · simp [stated, named]

def Stated (s : List Char) : Prop := ∃ path, States s path

theorem statement?_eq_none_iff : statement? s = none ↔ ¬ Stated s := by
  simp only [Stated, ← statement?_eq_some_iff, Option.eq_none_iff_forall_ne_some, not_exists, ne_eq]

theorem not_stated_nil : ¬ Stated [] := by
  rintro ⟨path, clause, rest, opens, closes, eq, -⟩
  simp at eq

theorem firstStatement?_eq_some_iff :
    firstStatement? s = some path ↔ ∃ here, Leftmost Stated s here ∧ States here path := by
  induction s with
  | nil =>
    refine iff_of_false nofun ?_
    rintro ⟨here, left, -⟩
    exact not_stated_nil (List.suffix_nil.1 left.place ▸ left.holds)
  | cons c s ih =>
    rw [firstStatement?]
    cases found : statement? (c :: s) with
    | some path' =>
      have left : Leftmost Stated (c :: s) (c :: s) :=
        leftmost_self ⟨path', statement?_eq_some_iff.1 found⟩
      rw [Option.some_or, ← found, statement?_eq_some_iff]
      refine ⟨fun stated => ⟨_, left, stated⟩, ?_⟩
      rintro ⟨here, left', stated⟩
      rwa [left.unique left']
    | none =>
      rw [Option.none_or, ih]
      simp only [leftmost_cons_of_not (statement?_eq_none_iff.1 found)]

theorem exists_leftmost (suffix : u <:+ s) (holds : P u) : ∃ here, Leftmost P s here := by
  induction s with
  | nil => exact ⟨[], leftmost_self (List.suffix_nil.1 suffix ▸ holds)⟩
  | cons c s ih =>
    by_cases front : P (c :: s)
    · exact ⟨c :: s, leftmost_self front⟩
    · rcases List.suffix_cons_iff.1 suffix with rfl | suffix
      · exact absurd holds front
      · simpa only [leftmost_cons_of_not front] using ih suffix

theorem firstStatement?_eq_none_iff :
    firstStatement? s = none ↔ ∀ u, u <:+ s → ¬ Stated u := by
  simp only [Option.eq_none_iff_forall_ne_some, ne_eq, firstStatement?_eq_some_iff]
  constructor
  · intro none u suffix stated
    obtain ⟨here, left⟩ := exists_leftmost suffix stated
    obtain ⟨path, states⟩ := left.holds
    exact none path ⟨here, left, states⟩
  · rintro absent path ⟨here, left, -⟩
    exact absent here left.place left.holds

theorem names_iff (message : String) :
    Names message.toList paths ↔ paths = (missingIn message).map String.toList := by
  obtain ⟨reports, tail, successive⟩ := exists_successive message.toList
  have names := successive.names
  have found : (missingIn message).map String.toList = reports.map Report.path := by
    rw [successive.missingIn_eq, List.map_map]
    exact List.map_congr_left fun r _ => String.toList_ofList
  rw [found]
  exact ⟨fun names' => names'.unique names, fun eq => eq ▸ names⟩

theorem missingIn_eq_nil_iff (message : String) :
    missingIn message = [] ↔ ∀ u, u <:+ message.toList → ¬ Begins u := by
  rw [← List.map_eq_nil_iff (f := String.toList), eq_comm, ← names_iff]
  constructor
  · intro names
    cases names with
    | none absent => exact absent
  · exact .none

/-- The sources that a message reports missing are the names at its reports in succession, and there
is always one such list. The import that it is about is the first of them, or if there is none the
one that is stated at the leftmost place of an import statement; it is about none only if there is
neither a report nor an import statement at any place. -/
theorem scans_follow_patterns (message : String) :
    (∀ paths, Names message.toList paths ↔ paths = (missingIn message).map String.toList) ∧
    (∀ path, importIn? message = some path ↔ (missingIn message).head? = some path ∨
      missingIn message = [] ∧
        ∃ here, Leftmost Stated message.toList here ∧ States here path.toList) ∧
    (importIn? message = none ↔ ∀ u, u <:+ message.toList → ¬ Begins u ∧ ¬ Stated u) := by
  refine ⟨fun _ => names_iff message, fun path => ?_, ?_⟩
  · unfold importIn?
    cases missingIn message with
    | cons first later => simp
    | nil =>
      simp only [List.head?_nil, reduceCtorEq, false_or, true_and, ← firstStatement?_eq_some_iff]
      rw [Option.map_eq_some_iff]
      constructor
      · rintro ⟨chars, found, rfl⟩
        rwa [String.toList_ofList]
      · exact fun found => ⟨path.toList, found, String.ofList_toList⟩
  · simp only [imp_and, forall_and, ← missingIn_eq_nil_iff, ← firstStatement?_eq_none_iff]
    unfold importIn?
    cases missingIn message with
    | cons first later => simp
    | nil => simp

example : importIn? "a Source \"b not found: import {C} from './D.sol\";" = some "./D.sol" := by
  decide +kernel

end ContractBuild.Imports
