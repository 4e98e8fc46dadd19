import ContractBuild.Proofs.Imports.Segments

/-!
# Reports in succession

A message is taken apart into its reports from left to right. Each is the first that begins in what
is left of the message, and goes on to the end of its line; the search goes on behind it. So the
message is made of gaps and reports and of a tail in which no report begins. Other reasons of one
line each leave the gaps, the names and the tail as they are: where a report begins is decided in
front of its reason.
-/

namespace ContractBuild.Imports

open Segment

def Begins (s : List Char) : Prop :=
  ∃ path rest, path ≠ [] ∧ '"' ∉ path ∧ s = opening ++ path ++ middle ++ rest

/-- No report begins in the gap in front of the rest. -/
def Silent (gap rest : List Char) : Prop := ∀ u, u <:+ gap → u ≠ [] → ¬ Begins (u ++ rest)

structure Report where
  gap : List Char
  path : List Char
  reason : List Char

namespace Report

def body (r : Report) : List Char := (missing r.path r.reason).chars

def chars (r : Report) : List Char := r.gap ++ r.body

def segments (r : Report) : List Segment := r.gap.map other ++ [missing r.path r.reason]

end Report

def joined (reports : List Report) (tail : List Char) : List Char :=
  reports.flatMap Report.chars ++ tail

/-- The reports of a message, and what is left behind the last of them. -/
inductive Successive : List Char → List Report → List Char → Prop
  | tail {s : List Char} (silent : Silent s []) : Successive s [] s
  | report {r : Report} {rest tail : List Char} {reports : List Report}
    (first : Silent r.gap (r.body ++ rest)) (sound : Sound r.path r.reason) (ends : EndsLine rest)
    (later : Successive rest reports tail) : Successive (r.chars ++ rest) (r :: reports) tail

variable {s rest tail gap path reason : List Char} {c : Char} {reports : List Report} {r : Report}

theorem begins_missing (sound : Sound path reason) (rest : List Char) :
    Begins ((missing path reason).chars ++ rest) :=
  ⟨path, reason ++ rest, sound.named, sound.unquoted, by simp [Segment.chars]⟩

theorem begins_iff_exists_report : Begins s ↔ ∃ path reason rest,
    Sound path reason ∧ EndsLine rest ∧ s = (missing path reason).chars ++ rest := by
  constructor
  · intro begins
    obtain ⟨path, behind, named, unquoted, eq⟩ := begins
    have line : '\n' ∉ behind.takeWhile (· ≠ '\n') := by
      intro mem
      simpa using List.mem_takeWhile_imp mem
    refine ⟨path, _, _, ⟨named, unquoted, line⟩, head_dropWhile behind, ?_⟩
    simp only [eq, Segment.chars, List.append_assoc, List.takeWhile_append_dropWhile]
  · intro found
    obtain ⟨path, reason, rest, sound, -, eq⟩ := found
    exact eq ▸ begins_missing sound rest

theorem report?_eq_none_iff : report? s = none ↔ ¬ Begins s := by
  rw [Option.eq_none_iff_forall_ne_some, begins_iff_exists_report]
  constructor
  · intro none ⟨path, reason, rest, sound, ends, eq⟩
    exact none (path, reason) (report?_eq_some_iff.2 ⟨sound, rest, eq, ends⟩)
  · intro silent report found
    obtain ⟨sound, rest, eq, ends⟩ := report?_eq_some_iff.1 found
    exact silent ⟨_, _, rest, sound, ends, eq⟩

theorem silent_cons_iff :
    Silent (c :: gap) rest ↔ ¬ Begins (c :: (gap ++ rest)) ∧ Silent gap rest := by
  constructor
  · intro silent
    refine ⟨silent (c :: gap) List.suffix_rfl (List.cons_ne_nil c gap), fun u suffix some => ?_⟩
    exact silent u (suffix.trans (List.suffix_cons c gap)) some
  · intro ⟨here, later⟩ u suffix some
    rcases List.suffix_cons_iff.1 suffix with rfl | suffix
    · exact here
    · exact later u suffix some

theorem silent_nil (rest : List Char) : Silent [] rest := by
  intro u suffix some
  exact absurd (List.suffix_nil.1 suffix) some

theorem length_named_le {u path' x rest : List Char} (some : u ≠ []) (unquoted : '"' ∉ path')
    (eq : u ++ (opening ++ path ++ middle) ++ x = opening ++ path' ++ middle ++ rest) :
    (opening ++ path' ++ middle).length ≤ (u ++ (opening ++ path ++ middle)).length := by
  have positive := List.length_pos_iff.2 some
  have size : opening.length = 8 := rfl
  -- The quotation mark of the next opening cannot be a part of the name in front of it.
  have short : path'.length < u.length := by
    by_contra long
    have same := congrArg (·[u.length + 7]?) eq
    have mark : (u ++ (opening ++ path ++ middle) ++ x)[u.length + 7]? = Option.some '"' := by
      simp only [List.append_assoc]
      rw [List.getElem?_append_right (by omega), Nat.add_sub_cancel_left]
      rfl
    have inside : (opening ++ path' ++ middle ++ rest)[u.length + 7]? = path'[u.length - 1]? := by
      simp only [List.append_assoc]
      rw [List.getElem?_append_right (by omega), List.getElem?_append_left (by omega), size]
      congr 1
    rw [mark, inside] at same
    exact unquoted (List.mem_of_getElem? same.symm)
  simp only [List.length_append]
  omega

theorem begins_congr {u x y : List Char} (some : u ≠ [])
    (begins : Begins (u ++ (opening ++ path ++ middle) ++ x)) :
    Begins (u ++ (opening ++ path ++ middle) ++ y) := by
  obtain ⟨path', rest, named, unquoted, eq⟩ := begins
  have start : opening ++ path' ++ middle <+: u ++ (opening ++ path ++ middle) := by
    apply List.prefix_of_prefix_length_le ⟨rest, eq.symm⟩ (List.prefix_append _ x)
    exact length_named_le some unquoted eq
  obtain ⟨rest', same⟩ := start
  exact ⟨path', rest' ++ y, named, unquoted, by rw [← same, List.append_assoc]⟩

theorem Silent.congr {reason' rest' : List Char}
    (silent : Silent gap ((missing path reason).chars ++ rest)) :
    Silent gap ((missing path reason').chars ++ rest') := by
  have split (reason rest : List Char) (u : List Char) :
      u ++ ((missing path reason).chars ++ rest) =
        u ++ (opening ++ path ++ middle) ++ (reason ++ rest) := by
    simp only [Segment.chars, List.append_assoc]
  intro u suffix some begins
  rw [split] at begins
  refine silent u suffix some ?_
  rw [split]
  exact begins_congr some begins

theorem exists_successive (s : List Char) : ∃ reports tail, Successive s reports tail := by
  induction length : s.length using Nat.strongRecOn generalizing s with
  | ind n ih =>
    subst length
    cases s with
    | nil => exact ⟨[], [], .tail (silent_nil [])⟩
    | cons c s =>
      by_cases begins : Begins (c :: s)
      · obtain ⟨path, reason, rest, sound, ends, eq⟩ := begins_iff_exists_report.1 begins
        have shorter : rest.length < (c :: s).length := by
          rw [eq, List.length_append]
          exact Nat.lt_add_of_pos_left (Nat.succ_pos _)
        obtain ⟨reports, tail, later⟩ := ih _ shorter rest rfl
        have here := Successive.report (r := ⟨[], path, reason⟩) (silent_nil _) sound ends later
        exact ⟨_, _, eq ▸ here⟩
      · obtain ⟨reports, tail, later⟩ := ih _ (Nat.lt_succ_self _) s rfl
        cases later with
        | tail silent =>
          refine ⟨[], c :: s, .tail (silent_cons_iff.2 ⟨?_, silent⟩)⟩
          rwa [List.append_nil]
        | @report r rest _ reports first sound ends later =>
          rw [Report.chars, List.append_assoc] at begins
          exact ⟨_, _, .report (r := ⟨c :: r.gap, r.path, r.reason⟩)
            (silent_cons_iff.2 ⟨begins, first⟩) sound ends later⟩

theorem Successive.joined_eq (successive : Successive s reports tail) :
    joined reports tail = s := by
  induction successive with
  | tail => rfl
  | report first sound ends later ih =>
    rw [← ih]
    simp only [joined, List.flatMap_cons, List.append_assoc]

theorem all_of_silent (silent : Silent gap rest) : all (gap ++ rest) = gap.map other ++ all rest := by
  induction gap with
  | nil => rfl
  | cons c gap ih =>
    obtain ⟨here, later⟩ := silent_cons_iff.1 silent
    rw [List.cons_append, all_other (report?_eq_none_iff.2 here), ih later]
    rfl

/-- The search finds the reports of a message one after the other. -/
theorem Successive.all_eq (successive : Successive s reports tail) :
    all s = reports.flatMap Report.segments ++ tail.map other := by
  induction successive with
  | @tail s silent =>
    have found := all_of_silent silent
    rwa [List.append_nil, show all [] = [] from rfl, List.append_nil] at found
  | @report r rest tail reports first sound ends later ih =>
    rw [Report.chars, List.append_assoc, all_of_silent first, Report.body, all_missing sound ends, ih]
    simp only [List.flatMap_cons, Report.segments, List.append_assoc, List.cons_append,
      List.nil_append]

theorem Successive.missingIn_eq {message : String}
    (successive : Successive message.toList reports tail) :
    missingIn message = reports.map fun r => .ofList r.path := by
  have others (s : List Char) : (s.map other).filterMap path? = [] := by simp [path?]
  rw [missingIn, successive.all_eq, List.filterMap_append, others, List.append_nil]
  clear successive
  induction reports with
  | nil => rfl
  | cons r reports ih =>
    rw [List.flatMap_cons, Report.segments, List.filterMap_append, List.filterMap_append, others,
      List.map_append, ih]
    rfl

variable {answer : String → Option String} {message : String}

def Report.answered (answer : String → Option String) (r : Report) : Report :=
  { r with reason := ((answer (.ofList r.path)).map String.toList).getD r.reason }

theorem flatMap_answered_segments (answer : String → Option String) (reports : List Report) :
    (reports.flatMap Report.segments).flatMap (answered answer) =
      (reports.map (Report.answered answer)).flatMap Report.chars := by
  induction reports with
  | nil => rfl
  | cons r reports ih =>
    rw [List.flatMap_cons, Report.segments, List.flatMap_append, List.flatMap_append,
      flatMap_answered_other, ih, List.flatMap_singleton]
    rfl

theorem Successive.withReasons_eq (successive : Successive message.toList reports tail)
    (answer : String → Option String) : (withReasons answer message).toList =
      joined (reports.map (Report.answered answer)) tail := by
  rw [Imports.withReasons_eq, String.toList_ofList, successive.all_eq, List.flatMap_append,
    flatMap_answered_other, flatMap_answered_segments, joined]

theorem head?_joined_answered (answer : String → Option String) (reports : List Report)
    (tail : List Char) :
    (joined (reports.map (Report.answered answer)) tail).head? = (joined reports tail).head? := by
  cases reports with
  | nil => rfl
  | cons r reports =>
    obtain ⟨gap, path, reason⟩ := r
    cases gap <;> rfl

theorem Successive.answered (successive : Successive s reports tail)
    (lines : ∀ path new, answer path = some new → '\n' ∉ new.toList) :
    Successive (joined (reports.map (Report.answered answer)) tail)
      (reports.map (Report.answered answer)) tail := by
  induction successive with
  | tail silent => exact .tail silent
  | @report r rest tail reports first sound ends later ih =>
    have line : '\n' ∉ (r.answered answer).reason := by
      unfold Report.answered
      cases told : answer (.ofList r.path) with
      | none => exact sound.line
      | some new => exact lines _ new told
    have ends' : EndsLine (joined (reports.map (Report.answered answer)) tail) := by
      rw [EndsLine, head?_joined_answered, later.joined_eq]
      exact ends
    have next := Successive.report (r := r.answered answer) first.congr
      ⟨sound.named, sound.unquoted, line⟩ ends' ih
    rwa [joined, List.map_cons, List.flatMap_cons, List.append_assoc]

theorem Report.answered_answered (r : Report) :
    (r.answered answer).answered answer = r.answered answer := by
  cases told : answer (.ofList r.path) <;> simp [Report.answered, told]

theorem withReasons_withReasons (lines : ∀ path new, answer path = some new → '\n' ∉ new.toList) :
    withReasons answer (withReasons answer message) = withReasons answer message := by
  obtain ⟨reports, tail, successive⟩ := exists_successive message.toList
  have once := successive.withReasons_eq answer
  have again := successive.answered lines
  rw [← once] at again
  rw [← String.toList_inj, again.withReasons_eq, once, List.map_map]
  exact congrArg (joined · tail) (List.map_congr_left fun r _ => r.answered_answered)

theorem missingIn_withReasons (lines : ∀ path new, answer path = some new → '\n' ∉ new.toList) :
    missingIn (withReasons answer message) = missingIn message := by
  obtain ⟨reports, tail, successive⟩ := exists_successive message.toList
  have again := successive.answered lines
  rw [← successive.withReasons_eq answer] at again
  rw [again.missingIn_eq, successive.missingIn_eq, List.map_map]
  rfl

end ContractBuild.Imports
