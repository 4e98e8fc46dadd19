import ContractBuild.Json.Tree
import ContractBuild.Proofs.Json.Numbers

/-!
# Printed values are scanned back

The tree of a printed value can be told from the value alone: every text is quoted with the same
escapes and every number is its canonical numeral. The scanner finds this tree in front of any text
that does not continue a number, and leaves that text.
-/

namespace ContractBuild.Json

def Piece.ofChar (c : Char) : Piece :=
  match escape c with
  | [_] => .plain c
  | [_, _] => .escaped c
  | _ => .unit c.toNat

def quoted (s : String) : Quoted := ⟨s.toList.map Piece.ofChar, none⟩

section

variable {c e : Char} {rest : List Char}

theorem scanQuoted_close : scanQuoted ('"' :: rest) = (⟨[], none⟩, rest) := by
  rw [scanQuoted.eq_def]
  simp

theorem scanQuoted_plain (quote : c ≠ '"') (backslash : c ≠ '\\') (visible : ¬ c.toNat < 0x20) :
    scanQuoted (c :: rest) = ((scanQuoted rest).1.push (.plain c), (scanQuoted rest).2) := by
  rw [scanQuoted.eq_def]
  simp only [quote, backslash, visible, if_false]

theorem scanQuoted_named (named : unescape e = some c) (unit : e ≠ 'u') :
    scanQuoted ('\\' :: e :: rest) =
      ((scanQuoted rest).1.push (.escaped c), (scanQuoted rest).2) := by
  rw [scanQuoted.eq_def]
  simp [unit, named]

theorem scanQuoted_unit {a b c d : Char} {n : Nat} (unit : hexUnit a b c d = some n) :
    scanQuoted ('\\' :: 'u' :: a :: b :: c :: d :: rest) =
      ((scanQuoted rest).1.push (.unit n), (scanQuoted rest).2) := by
  rw [scanQuoted.eq_def]
  simp [unit]

theorem escape_control (control : c.toNat < 0x20) :
    (∃ e, escape c = ['\\', e] ∧ unescape e = some c ∧ e ≠ 'u') ∨
    ∃ a b, escape c = ['\\', 'u', '0', '0', a, b] ∧ hexUnit '0' '0' a b = some c.toNat := by
  have known : c = Char.ofNat c.toNat := (Char.ofNat_toNat c).symm
  generalize c.toNat = n at control known
  subst known
  interval_cases n <;> first
    | exact .inl ⟨_, rfl, rfl, by decide⟩
    | exact .inr ⟨_, _, rfl, rfl⟩

theorem escape_visible (quote : c ≠ '"') (backslash : c ≠ '\\') (visible : ¬ c.toNat < 0x20) :
    escape c = [c] := by
  have other {d : Char} (small : d.toNat < 0x20) : c ≠ d := by
    rintro rfl
    exact visible small
  simp only [escape, quote, backslash, visible, other (d := '\n') (by decide),
    other (d := '\r') (by decide), other (d := '\t') (by decide), other (d := '\x08') (by decide),
    other (d := '\x0C') (by decide), if_false]

end

theorem scanQuoted_escape (c : Char) (rest : List Char) : scanQuoted (escape c ++ rest) =
    ((scanQuoted rest).1.push (.ofChar c), (scanQuoted rest).2) := by
  by_cases control : c.toNat < 0x20
  · rw [Piece.ofChar]
    rcases escape_control control with ⟨e, eq, named, unit⟩ | ⟨a, b, eq, unit⟩
    · rw [eq]
      exact scanQuoted_named named unit
    · rw [eq]
      exact scanQuoted_unit unit
  · by_cases quote : c = '"'
    · subst quote
      exact scanQuoted_named rfl (by decide)
    · by_cases backslash : c = '\\'
      · subst backslash
        exact scanQuoted_named rfl (by decide)
      · rw [Piece.ofChar, escape_visible quote backslash control]
        exact scanQuoted_plain quote backslash control

theorem scanQuoted_escapes (s : List Char) (rest : List Char) :
    scanQuoted (s.flatMap escape ++ '"' :: rest) = (⟨s.map Piece.ofChar, none⟩, rest) := by
  induction s with
  | nil => exact scanQuoted_close
  | cons c s ih =>
    rw [List.flatMap_cons, List.append_assoc, scanQuoted_escape, ih]
    rfl

mutual
def tree : Json → Tree
  | .null => .null
  | .bool b => .bool b
  | .number n => .number n.numeral
  | .string s => .string (quoted s)
  | .array items => .array (itemTrees items)
  | .object members => .object (memberTrees members)

def itemTrees : List Json → Items
  | [] => .done
  | x :: rest => .more (tree x) (itemTrees rest)

def memberTrees : List (String × Json) → Members
  | [] => .done
  | (key, x) :: rest => .more (quoted key) (tree x) (memberTrees rest)
end

theorem quote_append (s : String) (rest : List Char) :
    quote s ++ rest = '"' :: (s.toList.flatMap escape ++ '"' :: rest) := by
  simp [quote]

theorem skipBlank_cons {c : Char} {rest : List Char} (visible : isBlank c = false) :
    skipBlank (c :: rest) = c :: rest :=
  List.dropWhile_cons_of_neg (by simp [visible])

theorem chars_eq_cons (x : Json) : ∃ c text, x.chars = c :: text ∧ isBlank c = false ∧
    c ≠ ']' ∧ c ≠ '}' := by
  cases x with
  | null => exact ⟨_, _, rfl, by decide, by decide, by decide⟩
  | bool b => cases b <;> exact ⟨_, _, rfl, by decide, by decide, by decide⟩
  | string s => exact ⟨'"', _, rfl, by decide, by decide, by decide⟩
  | array items => cases items <;> exact ⟨'[', _, rfl, by decide, by decide, by decide⟩
  | object members =>
    cases members <;> exact ⟨'{', _, rfl, by decide, by decide, by decide⟩
  | number n =>
    obtain ⟨c, text, eq, front⟩ := Numeral.chars_eq_cons n.numeral_wellSpelled
    refine ⟨c, text, by rw [chars, n.chars_eq, eq], ?_⟩
    rcases front with rfl | digit
    · decide
    · refine ⟨?_, ?_, ?_⟩
      · simp only [isBlank, Bool.or_eq_false_iff, decide_eq_false_iff_not]
        refine ⟨⟨⟨?_, ?_⟩, ?_⟩, ?_⟩ <;> rintro rfl <;> exact absurd digit (by decide)
      · rintro rfl
        exact absurd digit (by decide)
      · rintro rfl
        exact absurd digit (by decide)

theorem skipBlank_chars (x : Json) (rest : List Char) :
    skipBlank (x.chars ++ rest) = x.chars ++ rest := by
  obtain ⟨c, text, eq, visible, -⟩ := chars_eq_cons x
  rw [eq, List.cons_append, skipBlank_cons visible]

theorem scanWord_append (found : Tree) (word rest : List Char) :
    scanWord found word (word ++ rest) = (found, rest) := by
  induction word with
  | nil => cases rest <;> rfl
  | cons w word ih => rw [List.cons_append, scanWord, if_pos rfl, ih]

section

variable {closing : Char} {inside : Part} {goesOn : Violation}

theorem separator_comma (rest : List Char) :
    separator closing inside goesOn (',' :: rest) = (.comma, rest) := by
  rw [separator, skipBlank_cons (by decide)]
  simp

theorem separator_close (visible : isBlank closing = false) (other : closing ≠ ',')
    (rest : List Char) : separator closing inside goesOn (closing :: rest) = (.close, rest) := by
  rw [separator, skipBlank_cons visible]
  simp [other]

end

/-- The scanner finds the tree of a value in front of any text, with two units of fuel for each
character. -/
def Scans (x : Json) : Prop :=
  ∀ fuel rest, Numeral.Follows rest → 2 * x.chars.length ≤ fuel →
    scanValue fuel (x.chars ++ rest) = (x.tree, rest)

def ItemsScan (items : List Json) : Prop :=
  ∀ x fuel rest, Scans x → 1 + 2 * (x.chars.length + (itemChars items).length) ≤ fuel →
    scanItems fuel (x.chars ++ (itemChars items ++ rest)) = (.more x.tree (itemTrees items), rest)

def MembersScan (members : List (String × Json)) : Prop :=
  ∀ key x fuel rest, Scans x → 1 + 2 * (x.chars.length + (memberChars members).length) ≤ fuel →
    scanMembers fuel (quote key ++ ':' :: (x.chars ++ (memberChars members ++ rest))) =
      (.more (quoted key) x.tree (memberTrees members), rest)

section

variable {x : Json} {items : List Json} {members : List (String × Json)} {fuel : Nat}

theorem scans_of_step (step : ∀ fuel rest, Numeral.Follows rest → 2 * x.chars.length ≤ fuel + 1 →
    scanValue (fuel + 1) (x.chars ++ rest) = (x.tree, rest)) : Scans x := by
  intro fuel rest follows enough
  obtain ⟨c, text, eq, -⟩ := chars_eq_cons x
  cases fuel with
  | zero => rw [eq, List.length_cons] at enough; omega
  | succ fuel => exact step fuel rest follows enough

theorem scans_null : Scans .null := by
  refine scans_of_step fun fuel rest _ _ => ?_
  rw [scanValue]
  exact scanWord_append .null ['u', 'l', 'l'] rest

theorem scans_bool (b : Bool) : Scans (.bool b) := by
  refine scans_of_step fun fuel rest _ _ => ?_
  cases b with
  | false =>
    rw [scanValue]
    exact scanWord_append (.bool false) ['a', 'l', 's', 'e'] rest
  | true =>
    rw [scanValue]
    exact scanWord_append (.bool true) ['r', 'u', 'e'] rest

theorem scans_string (s : String) : Scans (.string s) := by
  refine scans_of_step fun fuel rest _ _ => ?_
  rw [chars, quote_append, scanValue, skipBlank_cons (by decide)]
  simp only [if_true, scanQuoted_escapes]
  rfl

theorem scans_number (n : Number) : Scans (.number n) := by
  refine scans_of_step fun fuel rest follows _ => ?_
  have spelled := n.numeral_wellSpelled
  have taken := Numeral.scan_chars_append spelled follows
  obtain ⟨c, text, eq, front⟩ := Numeral.chars_eq_cons spelled
  obtain ⟨c', text', eq', visible, -, -⟩ := chars_eq_cons (.number n)
  rw [chars, n.chars_eq, eq] at eq'
  obtain ⟨rfl, rfl⟩ := List.cons.inj eq'
  have other {d : Char} (sign : d ≠ '-') (digit : d.isDigit = false) : c ≠ d := by
    rintro rfl
    rcases front with rfl | front
    · exact sign rfl
    · rw [digit] at front
      cases front
  rw [chars, n.chars_eq, scanValue, eq, List.cons_append, skipBlank_cons visible]
  rw [eq, List.cons_append] at taken
  simp only [other (d := '"') (by decide) (by decide), other (d := '[') (by decide) (by decide),
    other (d := '{') (by decide) (by decide), other (d := 'n') (by decide) (by decide),
    other (d := 't') (by decide) (by decide), other (d := 'f') (by decide) (by decide),
    if_false, front, if_true, taken, tree]

theorem scans_array (first : Scans x) (rest : ItemsScan items) : Scans (.array (x :: items)) := by
  refine scans_of_step fun fuel after follows enough => ?_
  obtain ⟨c, text, eq, visible, bracket, -⟩ := chars_eq_cons x
  have length : (chars (.array (x :: items))).length =
      1 + (x.chars.length + (itemChars items).length) := by
    simp [chars, Nat.add_comm]
  have taken := rest x fuel after first (by omega)
  simp only [chars, List.cons_append, List.append_assoc, scanValue]
  rw [skipBlank_cons (by decide)]
  simp only [Char.reduceEq, if_false, if_true]
  rw [skipBlank_chars, taken, eq]
  simp only [List.cons_append, bracket, if_false, tree, itemTrees]

theorem scans_object (key : String) (first : Scans x) (rest : MembersScan members) :
    Scans (.object ((key, x) :: members)) := by
  refine scans_of_step fun fuel after follows enough => ?_
  have length : 1 + (x.chars.length + (memberChars members).length) ≤
      (chars (.object ((key, x) :: members))).length := by
    simp only [chars, List.length_cons, List.length_append]
    omega
  have taken := rest key x fuel after first (by omega)
  simp only [chars, List.cons_append, List.append_assoc, scanValue]
  rw [skipBlank_cons (by decide)]
  simp only [Char.reduceEq, if_false, if_true]
  rw [taken, quote_append, skipBlank_cons (by decide)]
  simp only [Char.reduceEq, if_false, tree, memberTrees]

theorem scanItems_last (first : Scans x) (enough : 2 * x.chars.length ≤ fuel) (rest : List Char) :
    scanItems (fuel + 1) (x.chars ++ ']' :: rest) = (.more x.tree .done, rest) := by
  rw [scanItems, first fuel _ (.cons (.inr (.inl rfl))) enough]
  simp only [separator_close (by decide : isBlank ']' = false) (by decide)]

theorem startsWith_chars (x : Json) (rest : List Char) :
    startsWith ']' (skipBlank (x.chars ++ rest)) = false := by
  obtain ⟨c, text, eq, -, bracket, -⟩ := chars_eq_cons x
  rw [skipBlank_chars, eq, startsWith, List.cons_append, List.head?_cons, decide_eq_false_iff_not,
    Option.some.injEq]
  exact bracket

theorem scanItems_comma (first : Scans x) (enough : 2 * x.chars.length ≤ fuel) (y : Json)
    (rest : List Char) : scanItems (fuel + 1) (x.chars ++ ',' :: (y.chars ++ rest)) =
      (.more x.tree (scanItems fuel (y.chars ++ rest)).1, (scanItems fuel (y.chars ++ rest)).2) := by
  rw [scanItems, first fuel _ (.cons (.inl rfl)) enough]
  simp only [separator_comma, startsWith_chars, Bool.false_eq_true, if_false]

theorem scanMember (key : String) (first : Scans x) (enough : 2 * x.chars.length ≤ fuel)
    {c : Char} (follows : c = ',' ∨ c = ']' ∨ c = '}') (rest : List Char) :
    scanMembers (fuel + 1) (quote key ++ ':' :: (x.chars ++ c :: rest)) =
      match separator '}' .object .objectGoesOn (c :: rest) with
      | (.comma, text) =>
        (.more (quoted key) x.tree (scanMembers fuel text).1, (scanMembers fuel text).2)
      | (.close, text) => (.more (quoted key) x.tree .done, text)
      | (.stopped f, text) => (.more (quoted key) x.tree (.stopped f), text) := by
  rw [quote_append, scanMembers, skipBlank_cons (by decide)]
  simp only [if_true, scanQuoted_escapes]
  rw [skipBlank_cons (by decide)]
  simp only [if_true, first fuel _ (.cons follows) enough]
  rfl

theorem itemsScan_nil : ItemsScan [] := by
  intro x fuel rest first enough
  cases fuel with
  | zero => omega
  | succ fuel => exact scanItems_last first (by omega) rest

theorem itemsScan_cons (second : Scans x) (later : ItemsScan items) : ItemsScan (x :: items) := by
  intro y fuel rest first enough
  simp only [itemChars, List.length_cons, List.length_append] at enough
  cases fuel with
  | zero => omega
  | succ fuel =>
    have taken := later x fuel rest second (by omega)
    rw [itemChars, List.cons_append, List.append_assoc, scanItems_comma first (by omega), taken,
      itemTrees]

theorem membersScan_nil : MembersScan [] := by
  intro key x fuel rest first enough
  cases fuel with
  | zero => omega
  | succ fuel =>
    refine (scanMember key first (by omega) (.inr (.inr rfl)) rest).trans ?_
    simp only [separator_close (by decide : isBlank '}' = false) (by decide)]
    rfl

theorem membersScan_cons (key : String) (second : Scans x) (later : MembersScan members) :
    MembersScan ((key, x) :: members) := by
  intro key' y fuel rest first enough
  simp only [memberChars, List.length_cons, List.length_append] at enough
  cases fuel with
  | zero => omega
  | succ fuel =>
    have taken := later key x fuel rest second (by omega)
    rw [memberChars, List.cons_append, List.append_assoc, List.cons_append, List.append_assoc]
    refine (scanMember key' first (by omega) (.inl rfl) _).trans ?_
    simp only [separator_comma, taken]
    rfl

end

mutual
theorem scans : (x : Json) → Scans x
  | .null => scans_null
  | .bool b => scans_bool b
  | .number n => scans_number n
  | .string s => scans_string s
  | .array [] => scans_of_step fun _ _ _ _ => rfl
  | .array (x :: items) => scans_array (scans x) (itemsScan items)
  | .object [] => scans_of_step fun _ _ _ _ => rfl
  | .object ((key, x) :: members) => scans_object key (scans x) (membersScan members)

theorem itemsScan : (items : List Json) → ItemsScan items
  | [] => itemsScan_nil
  | x :: items => itemsScan_cons (scans x) (itemsScan items)

theorem membersScan : (members : List (String × Json)) → MembersScan members
  | [] => membersScan_nil
  | (key, x) :: members => membersScan_cons key (scans x) (membersScan members)
end

theorem ofText_chars (x : Json) : Tree.ofText x.chars = (x.tree, []) := by
  have scanned := scans x (2 * x.chars.length + 2) [] .nil (Nat.le_add_right _ _)
  rwa [List.append_nil] at scanned

end ContractBuild.Json
