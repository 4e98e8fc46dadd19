import ContractBuild.Compiler.Basic
import Mathlib.Data.List.TakeWhile

/-!
# The version in an output

An output is cut into lines, and only those in front of the first one that is not UTF-8 are read.
The version stands on the last of these that is not blank. Only if all lines are UTF-8 is this the
last one of the whole output that is not blank.
-/

namespace ContractBuild.Program

open Text (isBlank)

variable {output line : Bytes} {lines before after : List Bytes} {text v : String}
  {s t front back core : List Char}

/-- An output and its lines. A line end stands behind each of them, and may be missing at the last.
-/
inductive Lines : Bytes → List Bytes → Prop
  | none : Lines [] []
  | last {line : Bytes} (filled : line ≠ []) (whole : 10 ∉ line) : Lines line [line]
  | next {line rest : Bytes} {lines : List Bytes} (whole : 10 ∉ line) (later : Lines rest lines) :
      Lines (line ++ 10 :: rest) (line :: lines)

theorem linesOf_append (whole : 10 ∉ line) (rest : Bytes) :
    linesOf (line ++ 10 :: rest) = line :: linesOf rest := by
  induction line with
  | nil => rfl
  | cons b line ih =>
    rw [List.mem_cons, not_or] at whole
    rw [List.cons_append, linesOf, if_neg (Ne.symm whole.1), ih whole.2]

theorem linesOf_last (filled : line ≠ []) (whole : 10 ∉ line) : linesOf line = [line] := by
  induction line with
  | nil => exact absurd rfl filled
  | cons b line ih =>
    rw [List.mem_cons, not_or] at whole
    rw [linesOf, if_neg (Ne.symm whole.1)]
    cases line with
    | nil => rfl
    | cons c line => rw [ih (List.cons_ne_nil c line) whole.2]

theorem lines_linesOf (output : Bytes) : Lines output (linesOf output) := by
  induction output with
  | nil => exact .none
  | cons b rest ih =>
    rw [linesOf]
    by_cases ends : b = 10
    · rw [if_pos ends, ends]
      exact .next List.not_mem_nil ih
    · have inside {line : Bytes} (whole : 10 ∉ line) : 10 ∉ b :: line := by
        simpa [eq_comm] using And.intro ends whole
      rw [if_neg ends]
      generalize linesOf rest = lines at ih
      cases ih with
      | none => exact .last (List.cons_ne_nil b []) (inside List.not_mem_nil)
      | last filled whole => exact .last (List.cons_ne_nil b _) (inside whole)
      | next whole later => exact .next (inside whole) later

theorem lines_iff : Lines output lines ↔ lines = linesOf output := by
  constructor
  · intro cut
    induction cut with
    | none => rfl
    | last filled whole => exact (linesOf_last filled whole).symm
    | next whole _ ih => rw [linesOf_append whole, ih]
  · rintro rfl
    exact lines_linesOf output

structure Core (s core : List Char) : Prop where
  inside : ∃ front back, s = front ++ core ++ back ∧
    (∀ c ∈ front, isBlank c) ∧ ∀ c ∈ back, isBlank c
  first : ∀ c ∈ core.head?, ¬ isBlank c
  last : ∀ c ∈ core.getLast?, ¬ isBlank c

theorem trimStart_append (blank : ∀ c ∈ front, isBlank c) (first : ∀ c ∈ s.head?, ¬ isBlank c) :
    Text.trimStart (front ++ s) = s := by
  rw [Text.trimStart, List.dropWhile_append_of_pos blank]
  cases s with
  | nil => rfl
  | cons c s => rw [List.dropWhile_cons_of_neg (first c rfl)]

theorem trimEnd_append (blank : ∀ c ∈ back, isBlank c) (last : ∀ c ∈ s.getLast?, ¬ isBlank c) :
    Text.trimEnd (s ++ back) = s := by
  have turned : ∀ c ∈ back.reverse, isBlank c := fun c mem => blank c (List.mem_reverse.1 mem)
  have kept := trimStart_append (s := s.reverse) turned (by rwa [List.head?_reverse])
  rw [Text.trimStart, ← List.reverse_append] at kept
  rw [Text.trimEnd, kept, List.reverse_reverse]

theorem exists_trimStart (s : List Char) : ∃ front, s = front ++ Text.trimStart s ∧
    (∀ c ∈ front, isBlank c) ∧ ∀ c ∈ (Text.trimStart s).head?, ¬ isBlank c := by
  refine ⟨s.takeWhile isBlank, List.takeWhile_append_dropWhile.symm,
    fun c mem => List.mem_takeWhile_imp mem, fun c mem blank => ?_⟩
  have stop := List.head?_dropWhile_not isBlank s
  rw [Text.trimStart, Option.mem_def] at mem
  rw [mem] at stop
  exact absurd blank (by simpa using stop)

theorem exists_trimEnd (s : List Char) : ∃ back, s = Text.trimEnd s ++ back ∧
    (∀ c ∈ back, isBlank c) ∧ ∀ c ∈ (Text.trimEnd s).getLast?, ¬ isBlank c := by
  obtain ⟨back, eq, blank, first⟩ := exists_trimStart s.reverse
  refine ⟨back.reverse, ?_, fun c mem => blank c (List.mem_reverse.1 mem), ?_⟩
  · rw [← List.reverse_inj, eq]
    simp only [Text.trimEnd, Text.trimStart, List.reverse_append, List.reverse_reverse]
  · rwa [Text.trimEnd, List.getLast?_reverse]

theorem core_iff : Core text.toList core ↔ core = (Text.trim text).toList := by
  rw [Text.trim, String.toList_ofList]
  constructor
  · rintro ⟨⟨front, back, eq, blank, blank'⟩, first, last⟩
    cases core with
    | nil =>
      have all : ∀ c ∈ front ++ back, isBlank c := fun c mem =>
        (List.mem_append.1 mem).elim (blank c) (blank' c)
      have start := trimStart_append (s := []) all nofun
      rw [List.append_nil] at start
      rw [eq, List.append_nil, start]
      rfl
    | cons c core =>
      have first' : ∀ x ∈ (c :: core ++ back).head?, ¬ isBlank x := first
      rw [eq, List.append_assoc, trimStart_append blank first', trimEnd_append blank' last]
  · rintro rfl
    obtain ⟨front, eq, blank, first⟩ := exists_trimStart text.toList
    obtain ⟨back, eq', blank', last⟩ := exists_trimEnd (Text.trimStart text.toList)
    refine ⟨⟨front, back, ?_, blank, blank'⟩, fun c mem => first c ?_, last⟩
    · rw [List.append_assoc, ← eq', ← eq]
    · rw [eq', List.head?_append, Option.mem_def.1 mem]
      rfl

def marked (n : Nat) (s : List Char) : List Char := (List.replicate n versionMark).flatten ++ s

theorem marked_succ (n : Nat) (s : List Char) : marked (n + 1) s = versionMark ++ marked n s := by
  rw [marked, List.replicate_succ, List.flatten_cons, List.append_assoc, marked]

theorem dropMarks_of_not (n : Nat) (bare : ¬ versionMark <+: s) : dropMarks n s = s := by
  cases n with
  | zero => rfl
  | succ n =>
    rw [dropMarks]
    cases found : Text.after? versionMark s with
    | none => rfl
    | some rest => exact absurd ⟨rest, (Text.after?_eq_some_iff.1 found).symm⟩ bare

theorem dropMarks_marked (n more : Nat) (bare : ¬ versionMark <+: s) :
    dropMarks (n + more) (marked n s) = s := by
  induction n with
  | zero => exact dropMarks_of_not (0 + more) bare
  | succ n ih =>
    rw [Nat.add_right_comm, marked_succ, dropMarks, Text.after?_eq_some_iff.2 rfl]
    exact ih

theorem exists_marked (n : Nat) (enough : s.length ≤ n) :
    ∃ marks, s = marked marks (dropMarks n s) ∧ ¬ versionMark <+: dropMarks n s := by
  induction n generalizing s with
  | zero =>
    rw [List.length_eq_zero_iff.1 (Nat.le_zero.1 enough)]
    exact ⟨0, rfl, by decide⟩
  | succ n ih =>
    by_cases starts : versionMark <+: s
    · obtain ⟨rest, rfl⟩ := starts
      rw [dropMarks, Text.after?_eq_some_iff.2 rfl]
      have shorter : rest.length ≤ n := by
        rw [List.length_append] at enough
        have mark : 0 < versionMark.length := by decide
        omega
      obtain ⟨marks, eq, bare⟩ := ih shorter
      exact ⟨marks + 1, by rw [marked_succ, ← eq], bare⟩
    · rw [dropMarks_of_not (n + 1) starts]
      exact ⟨0, rfl, starts⟩

theorem length_le_marked (n : Nat) (s : List Char) : n ≤ (marked n s).length := by
  induction n with
  | zero => exact Nat.zero_le _
  | succ n ih =>
    rw [marked_succ, List.length_append]
    exact Nat.succ_le_of_lt (Nat.lt_of_le_of_lt ih (Nat.lt_add_of_pos_left (by decide)))

/-- The version on a line: its text without the white space at the ends and the marks in front. -/
def Announces (line : Bytes) (v : String) : Prop :=
  ∃ text marks, Utf8.decode line = .ok text ∧ Core text.toList (marked marks v.toList) ∧
    ¬ versionMark <+: v.toList

theorem announces_iff (decoded : Utf8.decode line = .ok text) : Announces line v ↔
    String.ofList (dropMarks (Text.trim text).toList.length (Text.trim text).toList) = v := by
  constructor
  · rintro ⟨_, marks, decoded', core, bare⟩
    cases decoded.symm.trans decoded'
    rw [← core_iff.1 core]
    obtain ⟨more, eq⟩ := Nat.exists_eq_add_of_le (length_le_marked marks v.toList)
    rw [eq, dropMarks_marked marks more bare, String.ofList_toList]
  · rintro rfl
    obtain ⟨marks, eq, bare⟩ := exists_marked (Text.trim text).toList.length (Nat.le_refl _)
    refine ⟨text, marks, decoded, ?_, ?_⟩
    · rw [String.toList_ofList, ← eq]
      exact core_iff.2 rfl
    · rwa [String.toList_ofList]

def Readable (line : Bytes) : Prop := ∃ text, Utf8.decode line = .ok text

theorem readable_iff : Readable line ↔ (Utf8.decode line).toOption.isSome = true := by
  unfold Readable
  cases Utf8.decode line with
  | ok text => simp [Except.toOption]
  | error fault => simp [Except.toOption]

instance (line : Bytes) : Decidable (Readable line) := decidable_of_iff _ readable_iff.symm

def Blank (line : Bytes) : Prop := ∃ text, Utf8.decode line = .ok text ∧ Text.allBlank text

theorem Blank.readable (blank : Blank line) : Readable line := blank.imp fun _ => And.left

/-- Only blank lines stand here, up to the end or to a line that is not UTF-8. -/
def Idle (lines : List Bytes) : Prop :=
  ∃ blanks rest, lines = blanks ++ rest ∧ (∀ line ∈ blanks, Blank line) ∧
    ∀ line ∈ rest.head?, ¬ Readable line

/-- The last line in front of the first one that is not UTF-8, blank ones apart. -/
structure Taken (lines before : List Bytes) (line : Bytes) (after : List Bytes) : Prop where
  split : lines = before ++ line :: after
  legible : ∀ earlier ∈ before, Readable earlier
  readable : Readable line
  filled : ¬ Blank line
  idle : Idle after

def candidates (lines : List Bytes) : List String :=
  (readableLines lines).filter fun text => !Text.allBlank text

theorem blank_iff (decoded : Utf8.decode line = .ok text) : Blank line ↔ Text.allBlank text := by
  constructor
  · rintro ⟨_, decoded', blank⟩
    cases decoded.symm.trans decoded'
    exact blank
  · exact fun blank => ⟨text, decoded, blank⟩

theorem candidates_of_not_readable (unreadable : ¬ Readable line) (lines : List Bytes) :
    candidates (line :: lines) = [] := by
  rw [candidates, readableLines]
  cases decoded : Utf8.decode line with
  | ok text => exact absurd ⟨text, decoded⟩ unreadable
  | error fault => rfl

theorem candidates_of_blank (blank : Blank line) (lines : List Bytes) :
    candidates (line :: lines) = candidates lines := by
  obtain ⟨text, decoded, blank⟩ := blank
  rw [candidates, readableLines, decoded]
  exact List.filter_cons_of_neg (by rw [blank]; decide)

theorem candidates_of_filled (decoded : Utf8.decode line = .ok text) (filled : ¬ Blank line)
    (lines : List Bytes) : candidates (line :: lines) = text :: candidates lines := by
  rw [blank_iff decoded] at filled
  rw [candidates, readableLines, decoded]
  exact List.filter_cons_of_pos (by simpa using filled)

theorem idle_cons : Idle (line :: lines) ↔ (Readable line → Blank line ∧ Idle lines) := by
  constructor
  · rintro ⟨blanks, rest, eq, blank, stop⟩ readable
    cases blanks with
    | nil => exact absurd readable (stop line (by rw [← List.nil_append rest, ← eq]; rfl))
    | cons _ blanks =>
      cases eq
      rw [List.forall_mem_cons] at blank
      exact ⟨blank.1, blanks, rest, rfl, blank.2, stop⟩
  · intro idle
    by_cases readable : Readable line
    · obtain ⟨blank, blanks, rest, rfl, blanks_blank, stop⟩ := idle readable
      exact ⟨line :: blanks, rest, rfl, List.forall_mem_cons.2 ⟨blank, blanks_blank⟩, stop⟩
    · refine ⟨[], line :: lines, rfl, nofun, ?_⟩
      rintro _ ⟨⟩
      exact readable

theorem candidates_eq_nil_iff : candidates lines = [] ↔ Idle lines := by
  induction lines with
  | nil => exact iff_of_true rfl ⟨[], [], rfl, nofun, nofun⟩
  | cons line lines ih =>
    rw [idle_cons]
    by_cases readable : Readable line
    · by_cases blank : Blank line
      · rw [candidates_of_blank blank, ih]
        exact ⟨fun idle _ => ⟨blank, idle⟩, fun idle => (idle readable).2⟩
      · obtain ⟨text, decoded⟩ := readable
        rw [candidates_of_filled decoded blank]
        exact iff_of_false nofun fun idle => blank (idle ⟨text, decoded⟩).1
    · exact iff_of_true (candidates_of_not_readable readable lines) fun yes => absurd yes readable

def Told (lines : List Bytes) (text : String) : Prop :=
  ∃ before line after, Taken lines before line after ∧ Utf8.decode line = .ok text

theorem told_cons : Told (line :: lines) text ↔ Readable line ∧
    (¬ Blank line ∧ Idle lines ∧ Utf8.decode line = .ok text ∨ Told lines text) := by
  constructor
  · rintro ⟨before, taken, after, ⟨split, legible, readable, filled, idle⟩, decoded⟩
    cases before with
    | nil =>
      cases split
      exact ⟨readable, .inl ⟨filled, idle, decoded⟩⟩
    | cons _ before =>
      cases split
      rw [List.forall_mem_cons] at legible
      have later : Taken _ before taken after := ⟨rfl, legible.2, readable, filled, idle⟩
      exact ⟨legible.1, .inr ⟨before, taken, after, later, decoded⟩⟩
  · rintro ⟨readable, ⟨filled, idle, decoded⟩ | ⟨before, taken, after, told, decoded⟩⟩
    · exact ⟨[], line, lines, ⟨rfl, nofun, readable, filled, idle⟩, decoded⟩
    · refine ⟨line :: before, taken, after, { told with split := ?_, legible := ?_ }, decoded⟩
      · rw [told.split, List.cons_append]
      · exact List.forall_mem_cons.2 ⟨readable, told.legible⟩

theorem getLast?_candidates_eq_some_iff :
    (candidates lines).getLast? = some text ↔ Told lines text := by
  induction lines with
  | nil =>
    refine iff_of_false nofun ?_
    rintro ⟨before, line, after, taken, -⟩
    have split := taken.split
    simp at split
  | cons line lines ih =>
    rw [told_cons, ← ih]
    by_cases readable : Readable line
    · by_cases blank : Blank line
      · rw [candidates_of_blank blank]
        exact ⟨fun last => ⟨readable, .inr last⟩,
          fun told => told.2.resolve_left fun own => own.1 blank⟩
      · obtain ⟨own, decoded⟩ := id readable
        rw [candidates_of_filled decoded blank, ← candidates_eq_nil_iff, decoded]
        cases candidates lines with
        | nil => simp [readable, blank]
        | cons later texts => simp [readable]
    · rw [candidates_of_not_readable readable]
      exact iff_of_false nofun fun told => readable told.1

theorem Taken.blank_after_iff (taken : Taken lines before line after) :
    (∀ later ∈ after, Blank later) ↔ ∀ any ∈ lines, Readable any := by
  obtain ⟨rfl, legible, readable, -, blanks, rest, rfl, blank, stop⟩ := taken
  simp only [List.forall_mem_append, List.forall_mem_cons]
  constructor
  · intro all
    exact ⟨legible, readable, fun later mem => (blank later mem).readable,
      fun later mem => (all.2 later mem).readable⟩
  · rintro ⟨-, -, -, rest_readable⟩
    refine ⟨blank, ?_⟩
    cases rest with
    | nil => exact nofun
    | cons later rest => exact absurd (rest_readable later List.mem_cons_self) (stop later rfl)

theorem versionIn_eq_ok_iff : versionIn output = .ok v ↔
    ∃ before line after, Taken (linesOf output) before line after ∧ Announces line v := by
  have found : versionIn output = .ok v ↔ ∃ text, Told (linesOf output) text ∧
      String.ofList (dropMarks (Text.trim text).toList.length (Text.trim text).toList) = v := by
    simp only [← getLast?_candidates_eq_some_iff]
    rw [versionIn, ← candidates]
    cases (candidates (linesOf output)).getLast? with
    | none => simp
    | some text => simp
  rw [found]
  constructor
  · rintro ⟨text, ⟨before, line, after, taken, decoded⟩, eq⟩
    exact ⟨before, line, after, taken, (announces_iff decoded).2 eq⟩
  · rintro ⟨before, line, after, taken, announced⟩
    obtain ⟨text, decoded⟩ := taken.readable
    exact ⟨text, ⟨before, line, after, taken, decoded⟩, (announces_iff decoded).1 announced⟩

theorem versionIn_eq_error_iff {failure : Failure} :
    versionIn output = .error failure ↔ failure = .compiler .noVersion ∧ Idle (linesOf output) := by
  rw [← candidates_eq_nil_iff, ← List.getLast?_eq_none_iff, versionIn, ← candidates]
  cases (candidates (linesOf output)).getLast? with
  | none => simp [eq_comm]
  | some text => simp

/-- An output has one list of lines. Its version is the one on the line that is taken, and it has
none only if no line can be. The line that is taken is the last one that is not blank if all lines
are UTF-8, and only then. -/
theorem version_of_taken_line (output : Bytes) :
    ∃ lines, (∀ others, Lines output others ↔ others = lines) ∧
      (∀ v, versionIn output = .ok v ↔
        ∃ before line after, Taken lines before line after ∧ Announces line v) ∧
      (∀ failure, versionIn output = .error failure ↔
        failure = .compiler .noVersion ∧ Idle lines) ∧
      ∀ before line after, Taken lines before line after →
        ((∀ later ∈ after, Blank later) ↔ ∀ any ∈ lines, Readable any) :=
  ⟨linesOf output, fun _ => lines_iff, fun _ => versionIn_eq_ok_iff,
    fun _ => versionIn_eq_error_iff, fun _ _ _ => Taken.blank_after_iff⟩

def padded : Bytes := Utf8.encode "solc\r\n Version: 1\r\n\n\t"

theorem version_of_taken_line_padded : ∃ (before after : List Bytes) (line : Bytes),
    Lines padded (before ++ line :: after) ∧ Announces line "1" ∧
      ∀ later ∈ after, Blank later := by
  obtain ⟨lines, cut, version, -, last⟩ := version_of_taken_line padded
  obtain rfl := (cut _).1 (lines_linesOf padded)
  obtain ⟨before, line, after, taken, announced⟩ := (version "1").1 (by decide +kernel)
  have blank := (last before line after taken).2 (by decide +kernel)
  exact ⟨before, after, line, taken.split ▸ lines_linesOf padded, announced, blank⟩

/-- The last line announces another version than the one that is taken. -/
theorem version_of_earlier_line :
    ∃ (output : Bytes) (before : List Bytes) (line : Bytes), Lines output (before ++ [line]) ∧
      ¬ Blank line ∧ Announces line "2" ∧ versionIn output = .ok "1" := by
  have decoded : Utf8.decode (Utf8.encode "Version: 2") = .ok "Version: 2" := by decide +kernel
  refine ⟨Utf8.encode "Version: 1\n" ++ 0xFF :: 10 :: Utf8.encode "Version: 2\n",
    [Utf8.encode "Version: 1", [0xFF]], Utf8.encode "Version: 2", lines_iff.2 ?_, ?_, ?_, ?_⟩
  · decide +kernel
  · rw [blank_iff decoded]
    decide +kernel
  · rw [announces_iff decoded]
    decide +kernel
  · decide +kernel

end ContractBuild.Program
