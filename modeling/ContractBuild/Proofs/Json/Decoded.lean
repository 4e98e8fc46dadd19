import ContractBuild.Proofs.Json.Reprint
import ContractBuild.Proofs.Json.Written

/-!
# What is read from a text of integers

When all numbers of a text are integers, the free-form values that are read from it are plain, and
they are nested no deeper than the levels that were left where they stood. A property of what is
read is followed through lists, maps and records, and past the parts that are skipped.
-/

namespace ContractBuild.Json

def Numeral.IsInteger (n : Numeral) : Prop := ∃ v ∈ n.value, v.IsInteger

instance : DecidablePred Numeral.IsInteger := fun n =>
  inferInstanceAs (Decidable (∃ v ∈ n.value, v.IsInteger))

mutual
def Tree.Integers : Tree → Prop
  | .number n => n.IsInteger
  | .array items => items.Integers
  | .object members => members.Integers
  | _ => True

def Items.Integers : Items → Prop
  | .more head rest => head.Integers ∧ rest.Integers
  | _ => True

def Members.Integers : Members → Prop
  | .more _ value rest => value.Integers ∧ rest.Integers
  | _ => True
end

mutual
def Tree.decIntegers : (t : Tree) → Decidable t.Integers
  | .number n => inferInstanceAs (Decidable n.IsInteger)
  | .array items => items.decIntegers
  | .object members => members.decIntegers
  | .null | .bool _ | .string _ | .broken _ => .isTrue trivial

def Items.decIntegers : (items : Items) → Decidable items.Integers
  | .more head rest =>
    have := head.decIntegers
    have := rest.decIntegers
    inferInstanceAs (Decidable (head.Integers ∧ rest.Integers))
  | .done | .stopped _ => .isTrue trivial

def Members.decIntegers : (members : Members) → Decidable members.Integers
  | .more _ value rest =>
    have := value.decIntegers
    have := rest.decIntegers
    inferInstanceAs (Decidable (value.Integers ∧ rest.Integers))
  | .done | .stopped _ => .isTrue trivial
end

instance : DecidablePred Tree.Integers := Tree.decIntegers

structure IntegerText (text : String) : Prop where
  integers : (Tree.ofText text.toList).1.Integers

instance : DecidablePred IntegerText := fun text =>
  decidable_of_iff (Tree.ofText text.toList).1.Integers ⟨.mk, IntegerText.integers⟩

mutual
theorem Tree.Integers.numbers : (t : Tree) → t.Integers → (depth : Nat) → (x : Json) →
    t.json depth = .ok x → x.Numbers Number.IsInteger
  | .null, _, _, _, rfl | .bool _, _, _, _, rfl => trivial
  | .number n, integer, depth, x, read => by
    obtain ⟨v, value, integer⟩ := integer
    rw [Tree.json, Option.mem_def.1 value] at read
    cases read
    exact integer
  | .string q, _, depth, x, read => by
    obtain ⟨s, -, rfl⟩ := map_eq_ok_iff.1 read
    trivial
  | .array items, integers, depth, x, read => by
    obtain ⟨d, xs, rfl, inner, rfl⟩ := Tree.json_array_eq_ok_iff.1 read
    exact Items.Integers.numbers items integers d xs inner
  | .object members, integers, depth, x, read => by
    obtain ⟨d, ms, rfl, inner, rfl⟩ := Tree.json_object_eq_ok_iff.1 read
    have all := memberNumbers_iff.1 (Members.Integers.numbers members integers d ms inner)
    exact memberNumbers_iff.2 fun m mem => all m (Table.mem_of_mem_ofEntries mem)

theorem Items.Integers.numbers : (items : Items) → items.Integers → (depth : Nat) →
    (xs : List Json) → items.json depth = .ok xs → ItemNumbers Number.IsInteger xs
  | .done, _, _, _, rfl => trivial
  | .more head rest, integers, depth, xs, read => by
    obtain ⟨x, later, first, second, rfl⟩ := Items.json_more_eq_ok_iff.1 read
    exact ⟨Tree.Integers.numbers head integers.1 depth x first,
      Items.Integers.numbers rest integers.2 depth later second⟩

theorem Members.Integers.numbers : (members : Members) → members.Integers → (depth : Nat) →
    (ms : List (String × Json)) → members.json depth = .ok ms → MemberNumbers Number.IsInteger ms
  | .done, _, _, _, rfl => trivial
  | .more k value rest, integers, depth, ms, read => by
    obtain ⟨key, x, later, -, first, second, rfl⟩ := Members.json_more_eq_ok_iff.1 read
    exact ⟨Tree.Integers.numbers value integers.1 depth x first,
      Members.Integers.numbers rest integers.2 depth later second⟩
end

namespace Reader

variable {α β : Type} {r : Reader α} {P : Nat → α → Prop}

/-- What is read with so many levels left from a tree of integers is as `P` says. -/
def Yields (r : Reader α) (P : Nat → α → Prop) : Prop :=
  ∀ depth t a, t.Integers → r depth t = .ok a → P depth a

theorem yields_true (r : Reader α) : r.Yields fun _ _ => True := fun _ _ _ _ _ => trivial

theorem json_yields : json.Yields fun depth x => x.Fits depth := by
  intro depth t x integers read
  obtain ⟨proper, room⟩ := t.proper_of_json depth x read
  exact ⟨⟨proper, integers.numbers t depth x read⟩, room⟩

theorem option_json_yields : json.option.Yields fun depth o => ∀ x ∈ o, x ≠ .null ∧ x.Fits depth := by
  intro depth t o integers read x some
  by_cases null : t = .null
  · subst null
    cases read
    cases some
  · rw [option_of_ne_null null] at read
    obtain ⟨x', inner, rfl⟩ := map_eq_ok_iff.1 read
    cases some
    refine ⟨?_, json_yields depth t x integers inner⟩
    intro eq
    subst eq
    exact null (null_of_json inner)

theorem Yields.option (yields : r.Yields P) : r.option.Yields fun depth o => ∀ a ∈ o, P depth a := by
  intro depth t o integers read a some
  by_cases null : t = .null
  · subst null
    cases read
    cases some
  · rw [option_of_ne_null null] at read
    obtain ⟨a', inner, rfl⟩ := map_eq_ok_iff.1 read
    cases some
    exact yields depth t a integers inner

theorem Yields.getD {r : Reader (Option α)} (yields : r.Yields fun depth o => ∀ a ∈ o, P depth a)
    {default : α} (absent : ∀ depth, P depth default) : (r.getD default).Yields P := by
  intro depth t a integers read
  obtain ⟨o, inner, rfl⟩ := map_eq_ok_iff.1 read
  cases o with
  | none => exact absent depth
  | some a => exact yields depth t _ integers inner a rfl

theorem Yields.items (yields : r.Yields P) {depth : Nat} {found : Items} {as : List α}
    (integers : found.Integers) (read : r.items depth found = .ok as) : ∀ a ∈ as, P depth a := by
  induction as generalizing found with
  | nil => exact nofun
  | cons a as ih =>
    cases found with
    | done => cases read
    | stopped f => cases read
    | more head rest =>
      obtain ⟨a', first, read⟩ := bind_eq_ok_iff.1 read
      obtain ⟨as', later, eq⟩ := bind_eq_ok_iff.1 read
      cases eq
      exact List.forall_mem_cons.2 ⟨yields depth head a integers.1 first, ih integers.2 later⟩

theorem Yields.list (yields : r.Yields P) :
    r.list.Yields fun depth as => ∀ a ∈ as, P (depth - 1) a := by
  intro depth t as integers read
  cases t with
  | array found =>
    obtain ⟨d, room, read⟩ := bind_eq_ok_iff.1 read
    cases enter_eq_ok_iff.1 room
    exact yields.items integers read
  | null | bool | number | string | object | broken => cases read

theorem Yields.entries {κ : Type} {key : Quoted → Except Problem κ} (yields : r.Yields P)
    {depth : Nat} {members : Members} {es : List (κ × α)} (integers : members.Integers)
    (read : Reader.entries key r depth members = .ok es) : ∀ e ∈ es, P depth e.2 := by
  induction es generalizing members with
  | nil => exact nofun
  | cons e es ih =>
    cases members with
    | done => cases read
    | stopped f => cases read
    | more k value rest =>
      obtain ⟨k', -, read⟩ := bind_eq_ok_iff.1 read
      obtain ⟨a, first, read⟩ := bind_eq_ok_iff.1 read
      obtain ⟨es', later, eq⟩ := bind_eq_ok_iff.1 read
      cases eq
      exact List.forall_mem_cons.2 ⟨yields depth value a integers.1 first, ih integers.2 later⟩

theorem Yields.map (yields : r.Yields P) :
    r.map.Yields fun depth m => ∀ e ∈ m.entries, P (depth - 1) e.2 := by
  intro depth t m integers read e mem
  cases t with
  | object members =>
    obtain ⟨d, room, inner⟩ := bind_eq_ok_iff.1 read
    obtain ⟨es, found, eq⟩ := bind_eq_ok_iff.1 inner
    cases eq
    cases enter_eq_ok_iff.1 room
    exact yields.entries integers found e (SortedMap.mem_of_mem_ofList mem)
  | null | bool | number | string | array | broken => cases read

end Reader

namespace Fields

variable {α β : Type} {fields : Fields α} {left : Fields (α → β)} {right : Fields α}
  {P : Nat → α → Prop} {Q : Nat → β → Prop}

/-- An invariant of the drafts: it holds at the start, is kept by every member that is taken, and
gives `P` at the end. -/
structure Keeps (fields : Fields α) (P : Nat → α → Prop) (inv : Nat → fields.Draft → Prop) : Prop where
  start : ∀ depth, inv depth fields.start
  take : ∀ name step, fields.take name = some step → ∀ depth t draft next, t.Integers →
    inv depth draft → step depth t draft = .ok next → inv depth next
  finish : ∀ depth draft a, inv depth draft → fields.finish draft = .ok a → P depth a

/-- What the fields are read as, from an object or from an array of integers, is as `P` says. -/
structure Yields (fields : Fields α) (P : Nat → α → Prop) : Prop where
  keeps : ∃ inv, fields.Keeps P inv
  position : ∀ lack depth items a rest, items.Integers →
    fields.position lack depth items = .ok (a, rest) → P depth a ∧ rest.Integers

theorem Yields.map (yields : fields.Yields P) {f : α → β}
    (maps : ∀ depth a, P depth a → Q depth (f a)) : (f <$> fields).Yields Q where
  keeps := by
    obtain ⟨inv, keeps⟩ := yields.keeps
    refine ⟨inv, keeps.start, keeps.take, ?_⟩
    intro depth draft b held finished
    obtain ⟨a, inner, rfl⟩ := map_eq_ok_iff.1 finished
    exact maps depth a (keeps.finish depth draft a held inner)
  position := by
    intro lack depth items b rest integers read
    obtain ⟨⟨a, rest'⟩, read, eq⟩ := map_eq_ok_iff.1 read
    cases eq
    obtain ⟨given, later⟩ := yields.position lack depth items a rest integers read
    exact ⟨maps depth a given, later⟩

theorem Yields.seq (yields : left.Yields fun depth f => ∀ a, P depth a → Q depth (f a))
    (yields' : right.Yields P) : (left <*> right).Yields Q where
  keeps := by
    obtain ⟨inv, keeps⟩ := yields.keeps
    obtain ⟨inv', keeps'⟩ := yields'.keeps
    refine ⟨fun depth draft => inv depth draft.1 ∧ inv' depth draft.2, ?_, ?_, ?_⟩
    · exact fun depth => ⟨keeps.start depth, keeps'.start depth⟩
    · intro name step taken depth t draft next integers held stepped
      rcases step_of_take_seq taken stepped with
        ⟨one, _, first, inner, rfl⟩ | ⟨one, _, second, inner, rfl⟩
      · exact ⟨keeps.take name one first depth t _ _ integers held.1 inner, held.2⟩
      · exact ⟨held.1, keeps'.take name one second depth t _ _ integers held.2 inner⟩
    · intro depth draft b held finished
      obtain ⟨f, first, rest⟩ := bind_eq_ok_iff.1 finished
      obtain ⟨a, second, eq⟩ := bind_eq_ok_iff.1 rest
      cases eq
      exact keeps.finish depth draft.1 f held.1 first a (keeps'.finish depth draft.2 a held.2 second)
  position := by
    intro lack depth items b rest integers read
    obtain ⟨⟨f, between⟩, first, inner⟩ := bind_eq_ok_iff.1 read
    obtain ⟨⟨a, behind⟩, second, eq⟩ := bind_eq_ok_iff.1 inner
    cases eq
    obtain ⟨given, later⟩ := yields.position lack depth items f between integers first
    obtain ⟨given', later'⟩ := yields'.position _ depth between a rest later second
    exact ⟨given a given', later'⟩

section

variable {name : String} {r : Reader α}

theorem yields_field (yields : r.Yields P) {absent : Except Problem α} {short : Option α}
    (missing : ∀ depth a, absent = .ok a ∨ short = some a → P depth a) :
    (field name r absent short).Yields P where
  keeps := by
    refine ⟨fun depth (draft : Option α) => ∀ a ∈ draft, P depth a, ?_, ?_, ?_⟩
    · exact fun depth a none => nomatch none
    · intro given step taken depth t draft next integers held stepped
      simp only [field] at taken
      split at taken <;> cases taken
      cases draft with
      | some a => cases stepped
      | none =>
        obtain ⟨a, read, rfl⟩ := map_eq_ok_iff.1 stepped
        intro a' eq
        cases eq
        exact yields depth t a integers read
    · intro depth draft a held finished
      cases draft with
      | some a' =>
        cases finished
        exact held a rfl
      | none => exact missing depth a (.inl finished)
  position := by
    intro lack depth items a rest integers read
    cases items with
    | more head later =>
      obtain ⟨a', inner, eq⟩ := map_eq_ok_iff.1 read
      cases eq
      exact ⟨yields depth head a integers.1 inner, integers.2⟩
    | done =>
      cases short with
      | none => cases read
      | some a' =>
        cases read
        exact ⟨missing depth a (.inr rfl), trivial⟩
    | stopped f => cases read

theorem yields_required (yields : r.Yields P) : (required name r).Yields P :=
  yields_field yields fun _ _ other => nomatch other

theorem yields_defaulted (yields : r.Yields P) {default : α} (given : ∀ depth, P depth default) :
    (defaulted name r default).Yields P := by
  apply yields_field yields
  intro depth a missing
  rcases missing with eq | eq <;> cases eq <;> exact given depth

theorem yields_optional (yields : r.Yields P) :
    (optional name r).Yields fun depth o => ∀ a ∈ o, P depth a :=
  yields_defaulted yields.option fun _ => nofun

end

theorem Keeps.gather {inv : Nat → fields.Draft → Prop} (keeps : fields.Keeps P inv) {depth : Nat} :
    (members : Members) → members.Integers → (draft found : fields.Draft) → inv depth draft →
      fields.gather depth draft members = .ok found → inv depth found
  | .done, _, draft, found, held, gathered => by
    cases gathered
    exact held
  | .stopped f, _, draft, found, held, gathered => by cases gathered
  | .more k value rest, integers, draft, found, held, gathered => by
    obtain ⟨name, -, gathered⟩ := bind_eq_ok_iff.1 gathered
    cases taken : fields.take name with
    | none =>
      rw [taken] at gathered
      obtain ⟨-, -, gathered⟩ := bind_eq_ok_iff.1 gathered
      exact keeps.gather rest integers.2 draft found held gathered
    | some step =>
      rw [taken] at gathered
      obtain ⟨next, stepped, gathered⟩ := bind_eq_ok_iff.1 gathered
      have kept := keeps.take name step taken depth value draft next integers.1 held stepped
      exact keeps.gather rest integers.2 next found kept gathered

end Fields

theorem Reader.record_yields {α : Type} {kind : String} {fields : Fields α} {P : Nat → α → Prop}
    (yields : fields.Yields P) :
    (Reader.record kind fields).Yields fun depth a => P (depth - 1) a := by
  intro depth t a integers read
  cases t with
  | object members =>
    obtain ⟨d, room, inner⟩ := bind_eq_ok_iff.1 read
    obtain ⟨draft, gathered, finished⟩ := bind_eq_ok_iff.1 inner
    cases enter_eq_ok_iff.1 room
    obtain ⟨inv, keeps⟩ := yields.keeps
    exact keeps.finish d draft a (keeps.gather members integers _ _ (keeps.start d) gathered) finished
  | array items =>
    obtain ⟨d, room, inner⟩ := bind_eq_ok_iff.1 read
    obtain ⟨⟨a', rest⟩, taken, last⟩ := bind_eq_ok_iff.1 inner
    obtain ⟨-, -, eq⟩ := bind_eq_ok_iff.1 last
    cases enter_eq_ok_iff.1 room
    cases pure_eq_ok_iff.1 eq
    exact (yields.position _ d items a rest integers taken).1
  | null | bool | number | string | broken => cases read

theorem Reader.read_of_runString {α : Type} {r : Reader α} {text : String} {a : α}
    (accepted : r.runString text = .ok a) : r nestingLimit (Tree.ofText text.toList).1 = .ok a := by
  simp only [Reader.runString, Reader.run, bind_eq_ok_iff] at accepted
  obtain ⟨found, read, last⟩ := accepted
  split at last <;> cases last
  exact read

end ContractBuild.Json
