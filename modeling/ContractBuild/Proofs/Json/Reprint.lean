import ContractBuild.Proofs.Json.Records
import ContractBuild.Proofs.Json.Reread
import Mathlib.Data.Option.Basic
import Mathlib.Logic.Relator

/-!
# Reading what was read and printed again

A text that gives a value of some type is parsed, its value is changed in places, and the new value
is printed. What is read from the print belongs to what was read from the text, in a relation that
goes with the change. Without a change a print is always accepted where the text was. Objects may
have had members with one key, as long as the reader does not look at them, and reals may come back
changed.
-/

namespace ContractBuild.Json

mutual
theorem Tree.readable_of_json : (t : Tree) → (depth : Nat) → (x : Json) → t.json depth = .ok x →
    x.Numbers Number.Readable
  | .null, _, _, rfl | .bool _, _, _, rfl => trivial
  | .number n, depth, x, read => by
    rw [Tree.json] at read
    split at read <;> cases read
    exact readable_of_value ‹_›
  | .string q, depth, x, read => by
    obtain ⟨s, -, rfl⟩ := map_eq_ok_iff.1 read
    trivial
  | .array items, depth, x, read => by
    obtain ⟨d, xs, rfl, inner, rfl⟩ := Tree.json_array_eq_ok_iff.1 read
    exact items.readable_of_json d xs inner
  | .object members, depth, x, read => by
    obtain ⟨d, ms, rfl, inner, rfl⟩ := Tree.json_object_eq_ok_iff.1 read
    have all := memberNumbers_iff.1 (members.readable_of_json d ms inner)
    exact memberNumbers_iff.2 fun m mem => all m (Table.mem_of_mem_ofEntries mem)

theorem Items.readable_of_json : (items : Items) → (depth : Nat) → (xs : List Json) →
    items.json depth = .ok xs → ItemNumbers Number.Readable xs
  | .done, _, _, rfl => trivial
  | .more head rest, depth, xs, read => by
    obtain ⟨x, later, first, second, rfl⟩ := Items.json_more_eq_ok_iff.1 read
    exact ⟨head.readable_of_json depth x first, rest.readable_of_json depth later second⟩

theorem Members.readable_of_json : (members : Members) → (depth : Nat) →
    (ms : List (String × Json)) → members.json depth = .ok ms →
    MemberNumbers Number.Readable ms
  | .done, _, _, rfl => trivial
  | .more k value rest, depth, ms, read => by
    obtain ⟨key, x, later, -, first, second, rfl⟩ := Members.json_more_eq_ok_iff.1 read
    exact ⟨value.readable_of_json depth x first, rest.readable_of_json depth later second⟩
end

mutual
theorem Tree.json_depth : (t : Tree) → (depth depth' : Nat) → (x x' : Json) →
    t.json depth = .ok x → t.json depth' = .ok x' → x = x'
  | .null, _, _, _, _, rfl, rfl | .bool _, _, _, _, _, rfl, rfl => rfl
  | .number n, depth, depth', x, x', read, read' => Except.ok.inj (read.symm.trans read')
  | .string q, depth, depth', x, x', read, read' => Except.ok.inj (read.symm.trans read')
  | .array items, depth, depth', x, x', read, read' => by
    obtain ⟨d, xs, rfl, inner, rfl⟩ := Tree.json_array_eq_ok_iff.1 read
    obtain ⟨d', xs', rfl, inner', rfl⟩ := Tree.json_array_eq_ok_iff.1 read'
    rw [items.json_depth d d' xs xs' inner inner']
  | .object members, depth, depth', x, x', read, read' => by
    obtain ⟨d, ms, rfl, inner, rfl⟩ := Tree.json_object_eq_ok_iff.1 read
    obtain ⟨d', ms', rfl, inner', rfl⟩ := Tree.json_object_eq_ok_iff.1 read'
    rw [members.json_depth d d' ms ms' inner inner']

theorem Items.json_depth : (items : Items) → (depth depth' : Nat) → (xs xs' : List Json) →
    items.json depth = .ok xs → items.json depth' = .ok xs' → xs = xs'
  | .done, _, _, _, _, rfl, rfl => rfl
  | .more head rest, depth, depth', xs, xs', read, read' => by
    obtain ⟨x, later, first, second, rfl⟩ := Items.json_more_eq_ok_iff.1 read
    obtain ⟨x', later', first', second', rfl⟩ := Items.json_more_eq_ok_iff.1 read'
    rw [head.json_depth depth depth' x x' first first',
      rest.json_depth depth depth' later later' second second']

theorem Members.json_depth : (members : Members) → (depth depth' : Nat) →
    (ms ms' : List (String × Json)) → members.json depth = .ok ms → members.json depth' = .ok ms' →
    ms = ms'
  | .done, _, _, _, _, rfl, rfl => rfl
  | .more k value rest, depth, depth', ms, ms', read, read' => by
    obtain ⟨key, x, later, name, first, second, rfl⟩ := Members.json_more_eq_ok_iff.1 read
    obtain ⟨key', x', later', name', first', second', rfl⟩ := Members.json_more_eq_ok_iff.1 read'
    rw [name] at name'
    cases name'
    rw [value.json_depth depth depth' x x' first first',
      rest.json_depth depth depth' later later' second second']
end

mutual
theorem tree_json : (x : Json) → x.Numbers Number.Readable → (depth : Nat) → x.nesting ≤ depth →
    ∃ y, x.tree.json depth = .ok y
  | .null, _, _, _ => ⟨.null, rfl⟩
  | .bool b, _, _, _ => ⟨.bool b, rfl⟩
  | .number n, readable, depth, _ => by
    obtain ⟨v, value⟩ := Option.isSome_iff_exists.1 readable
    exact ⟨.number v, by rw [tree, Tree.json, value]⟩
  | .string s, _, depth, _ => ⟨.string s, by rw [tree, Tree.json, text_quoted]; rfl⟩
  | .array items, readable, depth, room => by
    obtain ⟨d, entered, room⟩ := enter_of_lt room
    obtain ⟨ys, read⟩ := itemTrees_json items readable d room
    exact ⟨.array ys, by simp only [tree, Tree.json, entered, read, bind, Except.bind]; rfl⟩
  | .object members, readable, depth, room => by
    obtain ⟨d, entered, room⟩ := enter_of_lt room
    obtain ⟨ys, read⟩ := memberTrees_json members readable d room
    exact ⟨ofMembers ys, by simp only [tree, Tree.json, entered, read, bind, Except.bind]; rfl⟩

theorem itemTrees_json : (items : List Json) → ItemNumbers Number.Readable items →
    (depth : Nat) → itemNesting items ≤ depth → ∃ ys, (itemTrees items).json depth = .ok ys
  | [], _, _, _ => ⟨[], rfl⟩
  | x :: rest, readable, depth, room => by
    obtain ⟨y, first⟩ := tree_json x readable.1 depth ((Nat.le_max_left _ _).trans room)
    obtain ⟨ys, second⟩ := itemTrees_json rest readable.2 depth ((Nat.le_max_right _ _).trans room)
    exact ⟨y :: ys, Items.json_more_eq_ok_iff.2 ⟨y, ys, first, second, rfl⟩⟩

theorem memberTrees_json : (members : List (String × Json)) →
    MemberNumbers Number.Readable members → (depth : Nat) → memberNesting members ≤ depth →
    ∃ ys, (memberTrees members).json depth = .ok ys
  | [], _, _, _ => ⟨[], rfl⟩
  | (key, x) :: rest, readable, depth, room => by
    obtain ⟨y, first⟩ := tree_json x readable.1 depth ((Nat.le_max_left _ _).trans room)
    obtain ⟨ys, second⟩ := memberTrees_json rest readable.2 depth ((Nat.le_max_right _ _).trans room)
    exact ⟨(key, y) :: ys,
      Members.json_more_eq_ok_iff.2 ⟨key, y, ys, text_quoted key, first, second, rfl⟩⟩
end

namespace Reader

variable {α β : Type} {r : Reader α} {p : Json → Prop} {change : Json → Json} {R : α → α → Prop}

/-- If a value that is as `p` says is changed, what is read from its print is related to what was
read before. -/
def Turns (r : Reader α) (p : Json → Prop) (change : Json → Json) (R : α → α → Prop) : Prop :=
  ∀ depth depth' t x a, p x → t.json depth' = .ok x → r depth t = .ok a →
    ∃ b, r depth (change x).tree = .ok b ∧ R a b

/-- What is read from the print of a value is related to what was read before. -/
def Stable (r : Reader α) (R : α → α → Prop) : Prop := r.Turns (fun _ => True) id R

theorem Stable.intro (stable : ∀ depth depth' t x a, t.json depth' = .ok x → r depth t = .ok a →
    ∃ b, r depth x.tree = .ok b ∧ R a b) : r.Stable R :=
  fun depth depth' t x a _ => stable depth depth' t x a

theorem Turns.of_imp {p' : Json → Prop} (turns : r.Turns p change R) (imp : ∀ x, p' x → p x) :
    r.Turns p' change R :=
  fun depth depth' t x a fit => turns depth depth' t x a (imp x fit)

theorem Turns.imp {R' : α → α → Prop} (turns : r.Turns p change R) (imp : ∀ a b, R a b → R' a b) :
    r.Turns p change R' := by
  intro depth depth' t x a fit read given
  obtain ⟨b, again, related⟩ := turns depth depth' t x a fit read given
  exact ⟨b, again, imp a b related⟩

abbrev Lasting (r : Reader α) : Prop := r.Stable fun _ _ => True

theorem Stable.lasting (stable : r.Stable R) : r.Lasting :=
  Turns.imp stable fun _ _ _ => trivial

theorem json_lasting : json.Lasting := by
  refine Stable.intro fun depth depth' t x a read given => ?_
  obtain rfl := t.json_depth depth' depth x a read given
  obtain ⟨y, again⟩ := tree_json x (t.readable_of_json depth x given) depth
    (t.proper_of_json depth x given).2
  exact ⟨y, again, trivial⟩

theorem string_stable : string.Stable Eq := by
  refine Stable.intro fun depth depth' t x a read given => ?_
  cases t with
  | string q =>
    obtain ⟨s, text, rfl⟩ := map_eq_ok_iff.1 read
    have same : s = a := Except.ok.inj (text.symm.trans given)
    exact ⟨s, text_quoted s, same.symm⟩
  | null | bool | number | array | object | broken => cases given

theorem whole_stable {expected : String} (accept : Int → Option α) :
    (whole expected accept).Stable Eq := by
  refine Stable.intro fun depth depth' t x a read given => ?_
  cases t with
  | number n =>
    refine ⟨a, ?_, rfl⟩
    rw [Tree.json] at read
    simp only [whole] at given
    split at read <;> cases read
    rename_i v value
    rw [value] at given
    cases v with
    | real r => cases given
    | whole m least below =>
      have same : (Number.whole m least below).numeral.value = some (.whole m least below) :=
        Number.reprints_of_isInteger trivial
      simp only [tree, whole, same]
      exact given
  | null | bool | string | array | object | broken => cases given

theorem Stable.check (stable : r.Stable Eq) (accept : α → Except String β) :
    (r.check accept).Stable Eq := by
  refine Stable.intro fun depth depth' t x b read given => ?_
  obtain ⟨a, given, accepted⟩ := bind_eq_ok_iff.1 given
  obtain ⟨a', again, rfl⟩ := stable depth depth' t x a trivial read given
  exact ⟨b, bind_eq_ok_iff.2 ⟨a, again, accepted⟩, rfl⟩

theorem name_stable (names : List (String × α)) : (name names).Stable Eq := by
  refine Stable.intro fun depth depth' t x a read given => ?_
  cases t with
  | string q =>
    obtain ⟨s, text, rfl⟩ := map_eq_ok_iff.1 read
    obtain ⟨s', text', chosen⟩ := bind_eq_ok_iff.1 given
    obtain rfl := Except.ok.inj (text.symm.trans text')
    exact ⟨a, bind_eq_ok_iff.2 ⟨s, text_quoted s, chosen⟩, rfl⟩
  | object members =>
    obtain ⟨d, entered, given⟩ := bind_eq_ok_iff.1 given
    obtain ⟨d', ms, -, inner, rfl⟩ := Tree.json_object_eq_ok_iff.1 read
    cases members with
    | done | stopped => cases given
    | more k value rest =>
      obtain ⟨s, text, given⟩ := bind_eq_ok_iff.1 given
      obtain ⟨b, chosen, last⟩ := bind_eq_ok_iff.1 given
      obtain ⟨key, y, later, name, first, second, rfl⟩ := Members.json_more_eq_ok_iff.1 inner
      obtain rfl := Except.ok.inj (name.symm.trans text)
      cases value with
      | null =>
        cases rest with
        | done =>
          cases first
          cases second
          cases last
          refine ⟨a, ?_, rfl⟩
          exact bind_eq_ok_iff.2 ⟨d, entered, bind_eq_ok_iff.2
            ⟨key, text_quoted key, bind_eq_ok_iff.2 ⟨a, chosen, rfl⟩⟩⟩
        | stopped f => cases f <;> cases last
        | more => cases last
      | bool | number | string | array | object | broken => cases last
  | null | bool | number | array | broken => cases given

theorem null_of_tree {x : Json} (null : x.tree = .null) : x = .null := by
  cases x with
  | null => rfl
  | bool | number | string | array | object => cases null

theorem null_of_json {t : Tree} {depth : Nat} (read : t.json depth = .ok .null) : t = .null := by
  cases t with
  | null => rfl
  | bool => cases read
  | number n =>
    rw [Tree.json] at read
    split at read <;> cases read
  | string q =>
    obtain ⟨_, _, eq⟩ := map_eq_ok_iff.1 read
    cases eq
  | array items =>
    obtain ⟨_, _, _, _, eq⟩ := Tree.json_array_eq_ok_iff.1 read
    cases eq
  | object members =>
    obtain ⟨_, _, _, _, eq⟩ := Tree.json_object_eq_ok_iff.1 read
    cases eq
  | broken f => cases read

theorem option_of_ne_null {t : Tree} (some : t ≠ .null) (r : Reader α) (depth : Nat) :
    r.option depth t = (r depth t).map Option.some := by
  cases t with
  | null => exact absurd rfl some
  | bool | number | string | array | object | broken => rfl

theorem Turns.option (turns : r.Turns p change R) (keeps : ∀ x, change x = .null ↔ x = .null) :
    r.option.Turns p change (Option.Rel R) := by
  intro depth depth' t x a fit read given
  by_cases null : t = .null
  · subst null
    cases read
    cases given
    rw [(keeps .null).2 rfl]
    exact ⟨none, rfl, .none⟩
  · rw [option_of_ne_null null] at given
    obtain ⟨a, inner, rfl⟩ := map_eq_ok_iff.1 given
    obtain ⟨b, again, related⟩ := turns depth depth' t x a fit read inner
    have some : (change x).tree ≠ .null := by
      intro eq
      rw [(keeps x).1 (null_of_tree eq)] at read
      exact null (null_of_json read)
    refine ⟨Option.some b, ?_, .some related⟩
    rw [option_of_ne_null some]
    exact map_eq_ok_iff.2 ⟨b, again, rfl⟩

theorem Stable.option (stable : r.Stable R) : r.option.Stable (Option.Rel R) :=
  Turns.option stable fun _ => Iff.rfl

theorem Turns.getD {r : Reader (Option α)} (turns : r.Turns p change (Option.Rel R)) {default : α}
    (kept : R default default) : (r.getD default).Turns p change R := by
  intro depth depth' t x a fit read given
  obtain ⟨a, inner, rfl⟩ := map_eq_ok_iff.1 given
  obtain ⟨b, again, related⟩ := turns depth depth' t x a fit read inner
  refine ⟨b.getD default, map_eq_ok_iff.2 ⟨b, again, rfl⟩, ?_⟩
  cases related with
  | none => exact kept
  | some related => exact related

theorem Turns.items (turns : r.Turns p change R) {depth depth' : Nat} {items : Items}
    {xs : List Json} {as : List α} (fit : ∀ x ∈ xs, p x) (read : items.json depth' = .ok xs)
    (given : r.items depth items = .ok as) :
    ∃ bs, r.items depth (itemTrees (xs.map change)) = .ok bs ∧ List.Forall₂ R as bs := by
  induction xs generalizing items as with
  | nil =>
    obtain rfl := Items.eq_done_of_json read
    cases given
    exact ⟨[], rfl, .nil⟩
  | cons x xs ih =>
    obtain ⟨head, rest, rfl, first, later⟩ := Items.exists_more_of_json read
    obtain ⟨a, front, following⟩ := bind_eq_ok_iff.1 given
    obtain ⟨as, behind, eq⟩ := bind_eq_ok_iff.1 following
    cases pure_eq_ok_iff.1 eq
    obtain ⟨b, again, related⟩ := turns depth depth' head x a (fit x (.head _)) first front
    obtain ⟨bs, rest, all⟩ := ih (fun x mem => fit x (.tail _ mem)) later behind
    refine ⟨b :: bs, ?_, .cons related all⟩
    exact bind_eq_ok_iff.2 ⟨b, again, bind_eq_ok_iff.2 ⟨bs, rest, rfl⟩⟩

theorem Turns.list (turns : r.Turns p change R) {change' : Json → Json}
    (each : ∀ xs, change' (.array xs) = .array (xs.map change)) :
    r.list.Turns (fun x => ∀ xs, x = .array xs → ∀ y ∈ xs, p y) change' (List.Forall₂ R) := by
  intro depth depth' t x as fit read given
  cases t with
  | array items =>
    obtain ⟨d, xs, -, inner, rfl⟩ := Tree.json_array_eq_ok_iff.1 read
    obtain ⟨d', entered, given⟩ := bind_eq_ok_iff.1 given
    obtain ⟨bs, again, related⟩ := turns.items (fit xs rfl) inner given
    refine ⟨bs, ?_, related⟩
    rw [each]
    exact bind_eq_ok_iff.2 ⟨d', entered, again⟩
  | null | bool | number | string | object | broken => cases given

theorem Stable.list (stable : r.Stable R) : r.list.Stable (List.Forall₂ R) := by
  intro depth depth' t x as _ read given
  have each : ∀ xs : List Json, id (Json.array xs) = .array (xs.map id) := fun xs => by
    rw [List.map_id]
    rfl
  exact Turns.list stable each depth depth' t x as (fun _ _ _ _ => trivial) read given

theorem entries_eq_ok {depth depth' : Nat} {members : Members} {ms : List (String × Json)}
    {as : List (String × α)} (read : members.json depth' = .ok ms)
    (given : entries Quoted.text r depth members = .ok as) :
    ∀ m ∈ ms, ∃ t a, t.json depth' = .ok m.2 ∧ r depth t = .ok a := by
  induction ms generalizing members as with
  | nil => exact fun m mem => absurd mem List.not_mem_nil
  | cons m ms ih =>
    obtain ⟨k, value, rest, rfl, -, first, later⟩ := Members.exists_more_of_json read
    obtain ⟨key, -, given⟩ := bind_eq_ok_iff.1 given
    obtain ⟨a, front, given⟩ := bind_eq_ok_iff.1 given
    obtain ⟨as, behind, -⟩ := bind_eq_ok_iff.1 given
    intro m mem
    rcases List.mem_cons.1 mem with rfl | mem
    · exact ⟨value, a, first, front⟩
    · exact ih later behind m mem

theorem entries_memberTrees {depth : Nat} {ms : List (String × Json)}
    (each : ∀ m ∈ ms, ∃ a, r depth m.2.tree = .ok a) :
    ∃ as, entries Quoted.text r depth (memberTrees ms) = .ok as := by
  induction ms with
  | nil => exact ⟨[], rfl⟩
  | cons m ms ih =>
    obtain ⟨a, front⟩ := each m (.head _)
    obtain ⟨as, behind⟩ := ih fun m mem => each m (.tail _ mem)
    exact ⟨(m.1, a) :: as, bind_eq_ok_iff.2 ⟨m.1, text_quoted m.1,
      bind_eq_ok_iff.2 ⟨a, front, bind_eq_ok_iff.2 ⟨as, behind, rfl⟩⟩⟩⟩

theorem Lasting.map (lasting : r.Lasting) : r.map.Lasting := by
  refine Stable.intro fun depth depth' t x a read given => ?_
  cases t with
  | object members =>
    obtain ⟨d, ms, -, inner, rfl⟩ := Tree.json_object_eq_ok_iff.1 read
    obtain ⟨d', entered, given⟩ := bind_eq_ok_iff.1 given
    obtain ⟨as, given, -⟩ := bind_eq_ok_iff.1 given
    -- Of members with one key only one is printed, but all of them were read.
    have each : ∀ m ∈ Table.ofEntries ms, ∃ b, r d' m.2.tree = .ok b := by
      intro m mem
      obtain ⟨t, a, read, given⟩ := entries_eq_ok inner given m (Table.mem_of_mem_ofEntries mem)
      obtain ⟨b, again, -⟩ := lasting d' d t m.2 a trivial read given
      exact ⟨b, again⟩
    obtain ⟨bs, again⟩ := entries_memberTrees each
    exact ⟨.ofList bs, bind_eq_ok_iff.2 ⟨d', entered, bind_eq_ok_iff.2 ⟨bs, again, rfl⟩⟩, trivial⟩
  | null | bool | number | string | array | broken => cases given

end Reader

end ContractBuild.Json
