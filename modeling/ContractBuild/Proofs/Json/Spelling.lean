import ContractBuild.Json.Reader
import ContractBuild.Proofs.Json.Scan
import ContractBuild.Proofs.Outcome
import ContractBuild.Proofs.Table

/-!
# Spellings of a value

One value can be spelled in many ways: with other blanks, escapes and forms of its numbers. A tree
spells a value if it has the value's structure and its tokens mean what stands there. The printed
value is one of the spellings, and each spelling is read as the value if no key comes twice and
nothing is nested too deep. So a printed value is read back.
-/

namespace ContractBuild.Json

mutual
inductive Tree.Spells : Tree → Json → Prop
  | null : Tree.Spells .null .null
  | bool (b : Bool) : Tree.Spells (.bool b) (.bool b)
  | number {n : Numeral} {v : Number} (value : n.value = some v) :
    Tree.Spells (.number n) (.number v)
  | string {q : Quoted} {s : String} (text : q.text = .ok s) : Tree.Spells (.string q) (.string s)
  | array {items : Items} {xs : List Json} (spelled : items.Spells xs) :
    Tree.Spells (.array items) (.array xs)
  | object {members : Members} {ms : List (String × Json)} (spelled : members.Spells ms) :
    Tree.Spells (.object members) (.object ms)

inductive Items.Spells : Items → List Json → Prop
  | done : Items.Spells .done []
  | more {head : Tree} {rest : Items} {x : Json} {xs : List Json} (first : head.Spells x)
    (later : rest.Spells xs) : Items.Spells (.more head rest) (x :: xs)

inductive Members.Spells : Members → List (String × Json) → Prop
  | done : Members.Spells .done []
  | more {k : Quoted} {value : Tree} {rest : Members} {key : String} {x : Json}
    {ms : List (String × Json)} (name : k.text = .ok key) (first : value.Spells x)
    (later : rest.Spells ms) : Members.Spells (.more k value rest) ((key, x) :: ms)
end

mutual
def Numbers (p : Number → Prop) : Json → Prop
  | .number n => p n
  | .array items => ItemNumbers p items
  | .object members => MemberNumbers p members
  | _ => True

def ItemNumbers (p : Number → Prop) : List Json → Prop
  | [] => True
  | x :: rest => Numbers p x ∧ ItemNumbers p rest

def MemberNumbers (p : Number → Prop) : List (String × Json) → Prop
  | [] => True
  | (_, x) :: rest => Numbers p x ∧ MemberNumbers p rest
end

mutual
def Proper : Json → Prop
  | .array items => ItemsProper items
  | .object members => Table.Distinct members ∧ MembersProper members
  | _ => True

def ItemsProper : List Json → Prop
  | [] => True
  | x :: rest => Proper x ∧ ItemsProper rest

def MembersProper : List (String × Json) → Prop
  | [] => True
  | (_, x) :: rest => Proper x ∧ MembersProper rest
end

mutual
def nesting : Json → Nat
  | .array items => 1 + itemNesting items
  | .object members => 1 + memberNesting members
  | _ => 0

def itemNesting : List Json → Nat
  | [] => 0
  | x :: rest => max (nesting x) (itemNesting rest)

def memberNesting : List (String × Json) → Nat
  | [] => 0
  | (_, x) :: rest => max (nesting x) (memberNesting rest)
end

section

variable {p : Number → Prop} {depth : Nat} {items : List Json} {members : List (String × Json)}

theorem itemNumbers_iff : ItemNumbers p items ↔ ∀ x ∈ items, x.Numbers p := by
  induction items with
  | nil => simp [ItemNumbers]
  | cons x rest ih => simp [ItemNumbers, ih]

theorem memberNumbers_iff : MemberNumbers p members ↔ ∀ m ∈ members, m.2.Numbers p := by
  induction members with
  | nil => simp [MemberNumbers]
  | cons m rest ih => simp [MemberNumbers, ih]

theorem itemsProper_iff : ItemsProper items ↔ ∀ x ∈ items, x.Proper := by
  induction items with
  | nil => simp [ItemsProper]
  | cons x rest ih => simp [ItemsProper, ih]

theorem membersProper_iff : MembersProper members ↔ ∀ m ∈ members, m.2.Proper := by
  induction members with
  | nil => simp [MembersProper]
  | cons m rest ih => simp [MembersProper, ih]

theorem memberNesting_le_iff :
    memberNesting members ≤ depth ↔ ∀ m ∈ members, m.2.nesting ≤ depth := by
  induction members with
  | nil => simp [memberNesting]
  | cons m rest ih => simp [memberNesting, ih]

end

theorem joinPieces_unit_toNat (fault : Option Fault) (c : Char) (rest : List Piece) :
    joinPieces fault (.unit c.toNat :: rest) = (joinPieces fault rest).map (c :: ·) := by
  have whole : c.toNat < 0xD800 ∨ 0xDFFF < c.toNat ∧ c.toNat < 0x110000 := c.valid
  have low : isLow c.toNat = false := by
    simp only [isLow, Bool.and_eq_false_iff, decide_eq_false_iff_not]
    omega
  have high : isHigh c.toNat = false := by
    simp only [isHigh, Bool.and_eq_false_iff, decide_eq_false_iff_not]
    omega
  rw [joinPieces.eq_def]
  simp only [low, high, Bool.false_eq_true, if_false, Char.ofNat_toNat]

theorem text_quoted (s : String) : (quoted s).text = .ok s := by
  have joined : ∀ cs : List Char, joinPieces none (cs.map Piece.ofChar) = .ok cs := by
    intro cs
    induction cs with
    | nil => rfl
    | cons c cs ih =>
      rw [List.map_cons, Piece.ofChar]
      split
      · rw [joinPieces, ih]
        rfl
      · rw [joinPieces, ih]
        rfl
      · rw [joinPieces_unit_toNat, ih]
        rfl
  rw [Quoted.text, quoted, joined, Except.map, String.ofList_toList]

mutual
theorem tree_spells : (x : Json) → x.Numbers Number.Reprints → x.tree.Spells x
  | .null, _ => .null
  | .bool b, _ => .bool b
  | .number _, reprints => .number reprints
  | .string s, _ => .string (text_quoted s)
  | .array items, reprints => .array (itemTrees_spell items reprints)
  | .object members, reprints => .object (memberTrees_spell members reprints)

theorem itemTrees_spell : (items : List Json) → ItemNumbers Number.Reprints items →
    (itemTrees items).Spells items
  | [], _ => .done
  | x :: rest, reprints => .more (tree_spells x reprints.1) (itemTrees_spell rest reprints.2)

theorem memberTrees_spell : (members : List (String × Json)) →
    MemberNumbers Number.Reprints members → (memberTrees members).Spells members
  | [], _ => .done
  | (key, x) :: rest, reprints =>
    .more (text_quoted key) (tree_spells x reprints.1) (memberTrees_spell rest reprints.2)
end

mutual
theorem Numbers.imp {p q : Number → Prop} (imp : ∀ n, p n → q n) :
    (x : Json) → x.Numbers p → x.Numbers q
  | .null, _ | .bool _, _ | .string _, _ => trivial
  | .number n, h => imp n h
  | .array items, h => ItemNumbers.imp imp items h
  | .object members, h => MemberNumbers.imp imp members h

theorem ItemNumbers.imp {p q : Number → Prop} (imp : ∀ n, p n → q n) :
    (items : List Json) → ItemNumbers p items → ItemNumbers q items
  | [], _ => trivial
  | x :: rest, h => ⟨Numbers.imp imp x h.1, ItemNumbers.imp imp rest h.2⟩

theorem MemberNumbers.imp {p q : Number → Prop} (imp : ∀ n, p n → q n) :
    (members : List (String × Json)) → MemberNumbers p members → MemberNumbers q members
  | [], _ => trivial
  | (_, x) :: rest, h => ⟨Numbers.imp imp x h.1, MemberNumbers.imp imp rest h.2⟩
end

theorem enter_of_lt {depth n : Nat} (room : 1 + n ≤ depth) :
    ∃ d, enter depth = .ok d ∧ n ≤ d := by
  cases depth with
  | zero => omega
  | succ d => exact ⟨d, rfl, by omega⟩

mutual
theorem Tree.Spells.json_eq : {t : Tree} → {x : Json} → t.Spells x → x.Proper →
    (depth : Nat) → x.nesting ≤ depth → t.json depth = .ok x
  | _, _, .null, _, _, _ => rfl
  | _, _, .bool _, _, _, _ => rfl
  | _, _, .number value, _, _, _ => by rw [Tree.json, value]
  | _, _, .string text, _, _, _ => by rw [Tree.json, text]; rfl
  | _, _, .array spelled, proper, depth, room => by
    obtain ⟨d, entered, room⟩ := enter_of_lt room
    simp only [Tree.json, entered, spelled.json_eq proper d room, bind, Except.bind]
    rfl
  | _, _, .object spelled, proper, depth, room => by
    obtain ⟨d, entered, room⟩ := enter_of_lt room
    simp only [Tree.json, entered, spelled.json_eq proper.2 d room, bind, Except.bind, ofMembers,
      Table.ofEntries_of_distinct proper.1]
    rfl

theorem Items.Spells.json_eq : {items : Items} → {xs : List Json} → items.Spells xs →
    ItemsProper xs → (depth : Nat) → itemNesting xs ≤ depth → items.json depth = .ok xs
  | _, _, .done, _, _, _ => rfl
  | _, _, .more first later, proper, depth, room => by
    have firstRoom := Nat.le_trans (Nat.le_max_left _ _) room
    have laterRoom := Nat.le_trans (Nat.le_max_right _ _) room
    simp only [Items.json, first.json_eq proper.1 depth firstRoom,
      later.json_eq proper.2 depth laterRoom, bind, Except.bind]
    rfl

theorem Members.Spells.json_eq : {members : Members} → {ms : List (String × Json)} →
    members.Spells ms → MembersProper ms → (depth : Nat) → memberNesting ms ≤ depth →
    members.json depth = .ok ms
  | _, _, .done, _, _, _ => rfl
  | _, _, .more name first later, proper, depth, room => by
    have firstRoom := Nat.le_trans (Nat.le_max_left _ _) room
    have laterRoom := Nat.le_trans (Nat.le_max_right _ _) room
    simp only [Members.json, name, first.json_eq proper.1 depth firstRoom,
      later.json_eq proper.2 depth laterRoom, bind, Except.bind]
    rfl
end

theorem Reader.runString_text {α : Type} (r : Reader α) (x : Json) :
    r.runString x.text = r nestingLimit x.tree := by
  simp only [Reader.runString, Reader.run, Json.text, String.toList_ofList, ofText_chars, skipBlank,
    List.dropWhile_nil, List.isEmpty_nil, if_true]
  cases r nestingLimit x.tree <;> rfl

theorem ofString?_text {x : Json} (numbers : x.Numbers Number.Reprints) (proper : x.Proper)
    (room : x.nesting ≤ nestingLimit) : ofString? x.text = .ok x := by
  rw [ofString?, Reader.runString_text]
  exact (tree_spells x numbers).json_eq proper nestingLimit room

def Members.keyTexts : Members → List (Except Problem String)
  | .more key _ rest => key.text :: rest.keyTexts
  | _ => []

mutual
def Tree.DistinctKeys : Tree → Prop
  | .array items => items.DistinctKeys
  | .object members => members.keyTexts.Nodup ∧ members.DistinctKeys
  | _ => True

def Items.DistinctKeys : Items → Prop
  | .more head rest => head.DistinctKeys ∧ rest.DistinctKeys
  | _ => True

def Members.DistinctKeys : Members → Prop
  | .more _ value rest => value.DistinctKeys ∧ rest.DistinctKeys
  | _ => True
end

mutual
def Tree.decDistinctKeys : (t : Tree) → Decidable t.DistinctKeys
  | .array items => items.decDistinctKeys
  | .object members =>
    have := members.decDistinctKeys
    inferInstanceAs (Decidable (members.keyTexts.Nodup ∧ members.DistinctKeys))
  | .null | .bool _ | .number _ | .string _ | .broken _ => .isTrue trivial

def Items.decDistinctKeys : (items : Items) → Decidable items.DistinctKeys
  | .more head rest =>
    have := head.decDistinctKeys
    have := rest.decDistinctKeys
    inferInstanceAs (Decidable (head.DistinctKeys ∧ rest.DistinctKeys))
  | .done | .stopped _ => .isTrue trivial

def Members.decDistinctKeys : (members : Members) → Decidable members.DistinctKeys
  | .more _ value rest =>
    have := value.decDistinctKeys
    have := rest.decDistinctKeys
    inferInstanceAs (Decidable (value.DistinctKeys ∧ rest.DistinctKeys))
  | .done | .stopped _ => .isTrue trivial
end

instance : DecidablePred Tree.DistinctKeys := Tree.decDistinctKeys

section

variable {α β : Type} {depth : Nat}

theorem enter_eq_ok_iff {d : Nat} : enter depth = .ok d ↔ depth = d + 1 := by
  cases depth with
  | zero => exact ⟨nofun, nofun⟩
  | succ n => exact ⟨fun h => congrArg _ (Except.ok.inj h), fun h => congrArg _ (Nat.succ.inj h)⟩

theorem Tree.json_array_eq_ok_iff {items : Items} {x : Json} :
    (Tree.array items).json depth = .ok x ↔
      ∃ d xs, depth = d + 1 ∧ items.json d = .ok xs ∧ x = .array xs := by
  simp only [Tree.json, bind_eq_ok_iff, enter_eq_ok_iff, pure_eq_ok_iff]
  constructor
  · rintro ⟨d, room, xs, read, rfl⟩
    exact ⟨d, xs, room, read, rfl⟩
  · rintro ⟨d, xs, room, read, rfl⟩
    exact ⟨d, room, xs, read, rfl⟩

theorem Tree.json_object_eq_ok_iff {members : Members} {x : Json} :
    (Tree.object members).json depth = .ok x ↔
      ∃ d ms, depth = d + 1 ∧ members.json d = .ok ms ∧ x = .object (Table.ofEntries ms) := by
  simp only [Tree.json, bind_eq_ok_iff, enter_eq_ok_iff, pure_eq_ok_iff]
  constructor
  · rintro ⟨d, room, ms, read, rfl⟩
    exact ⟨d, ms, room, read, rfl⟩
  · rintro ⟨d, ms, room, read, rfl⟩
    exact ⟨d, room, ms, read, rfl⟩

theorem Items.json_more_eq_ok_iff {head : Tree} {rest : Items} {xs : List Json} :
    (Items.more head rest).json depth = .ok xs ↔
      ∃ x later, head.json depth = .ok x ∧ rest.json depth = .ok later ∧ xs = x :: later := by
  simp only [Items.json, bind_eq_ok_iff, pure_eq_ok_iff]
  constructor
  · rintro ⟨x, first, later, read, rfl⟩
    exact ⟨x, later, first, read, rfl⟩
  · rintro ⟨x, later, first, read, rfl⟩
    exact ⟨x, first, later, read, rfl⟩

theorem Members.json_more_eq_ok_iff {k : Quoted} {value : Tree} {rest : Members}
    {ms : List (String × Json)} : (Members.more k value rest).json depth = .ok ms ↔
      ∃ key x later, k.text = .ok key ∧ value.json depth = .ok x ∧ rest.json depth = .ok later ∧
        ms = (key, x) :: later := by
  simp only [Members.json, bind_eq_ok_iff, pure_eq_ok_iff]
  constructor
  · rintro ⟨key, name, x, first, later, read, rfl⟩
    exact ⟨key, x, later, name, first, read, rfl⟩
  · rintro ⟨key, x, later, name, first, read, rfl⟩
    exact ⟨key, name, x, first, later, read, rfl⟩

theorem Items.eq_done_of_json {items : Items} (read : items.json depth = .ok []) :
    items = .done := by
  cases items with
  | done => rfl
  | stopped f => cases read
  | more head rest =>
    obtain ⟨_, _, _, _, eq⟩ := Items.json_more_eq_ok_iff.1 read
    cases eq

theorem Items.exists_more_of_json {items : Items} {x : Json} {xs : List Json}
    (read : items.json depth = .ok (x :: xs)) : ∃ head rest, items = .more head rest ∧
      head.json depth = .ok x ∧ rest.json depth = .ok xs := by
  cases items with
  | done => cases read
  | stopped f => cases read
  | more head rest =>
    obtain ⟨_, _, first, later, eq⟩ := Items.json_more_eq_ok_iff.1 read
    cases eq
    exact ⟨head, rest, rfl, first, later⟩

theorem Members.eq_done_of_json {members : Members} (read : members.json depth = .ok []) :
    members = .done := by
  cases members with
  | done => rfl
  | stopped f => cases read
  | more k value rest =>
    obtain ⟨_, _, _, _, _, _, eq⟩ := Members.json_more_eq_ok_iff.1 read
    cases eq

theorem Members.exists_more_of_json {members : Members} {key : String} {x : Json}
    {ms : List (String × Json)} (read : members.json depth = .ok ((key, x) :: ms)) :
    ∃ k value rest, members = .more k value rest ∧ k.text = .ok key ∧ value.json depth = .ok x ∧
      rest.json depth = .ok ms := by
  cases members with
  | done => cases read
  | stopped f => cases read
  | more k value rest =>
    obtain ⟨_, _, _, name, first, later, eq⟩ := Members.json_more_eq_ok_iff.1 read
    cases eq
    exact ⟨k, value, rest, rfl, name, first, later⟩

theorem Members.keyTexts_of_json {members : Members} {ms : List (String × Json)}
    (read : members.json depth = .ok ms) : members.keyTexts = ms.map fun m => .ok m.1 := by
  induction ms generalizing members with
  | nil =>
    rw [Members.eq_done_of_json read]
    rfl
  | cons m ms ih =>
    obtain ⟨k, value, rest, rfl, name, -, later⟩ := Members.exists_more_of_json read
    rw [Members.keyTexts, name, ih later, List.map_cons]

theorem distinct_of_keyTexts {members : Members} {ms : List (String × Json)}
    (read : members.json depth = .ok ms) (distinct : members.keyTexts.Nodup) :
    Table.Distinct ms := by
  rw [Members.keyTexts_of_json read] at distinct
  refine List.Nodup.of_map (Except.ok : String → Except Problem String) ?_
  rwa [List.map_map]

end

mutual
theorem Tree.proper_of_json : (t : Tree) → (depth : Nat) → (x : Json) → t.json depth = .ok x →
    x.Proper ∧ x.nesting ≤ depth
  | .null, _, _, rfl | .bool _, _, _, rfl => ⟨trivial, Nat.zero_le _⟩
  | .number n, depth, x, read => by
    rw [Tree.json] at read
    split at read <;> cases read
    exact ⟨trivial, Nat.zero_le _⟩
  | .string q, depth, x, read => by
    obtain ⟨s, -, rfl⟩ := map_eq_ok_iff.1 read
    exact ⟨trivial, Nat.zero_le _⟩
  | .array items, depth, x, read => by
    obtain ⟨d, xs, rfl, inner, rfl⟩ := Tree.json_array_eq_ok_iff.1 read
    obtain ⟨proper, room⟩ := items.proper_of_json d xs inner
    exact ⟨proper, by rw [nesting]; omega⟩
  | .object members, depth, x, read => by
    obtain ⟨d, ms, rfl, inner, rfl⟩ := Tree.json_object_eq_ok_iff.1 read
    obtain ⟨proper, room⟩ := members.proper_of_json d ms inner
    rw [membersProper_iff] at proper
    rw [memberNesting_le_iff] at room
    refine ⟨⟨Table.distinct_ofEntries ms, ?_⟩, ?_⟩
    · exact membersProper_iff.2 fun m mem => proper m (Table.mem_of_mem_ofEntries mem)
    · rw [nesting, Nat.add_comm]
      exact Nat.succ_le_succ
        (memberNesting_le_iff.2 fun m mem => room m (Table.mem_of_mem_ofEntries mem))

theorem Items.proper_of_json : (items : Items) → (depth : Nat) → (xs : List Json) →
    items.json depth = .ok xs → ItemsProper xs ∧ itemNesting xs ≤ depth
  | .done, _, _, rfl => ⟨trivial, Nat.zero_le _⟩
  | .more head rest, depth, xs, read => by
    obtain ⟨x, later, first, second, rfl⟩ := Items.json_more_eq_ok_iff.1 read
    obtain ⟨proper, room⟩ := head.proper_of_json depth x first
    obtain ⟨properLater, roomLater⟩ := rest.proper_of_json depth later second
    exact ⟨⟨proper, properLater⟩, Nat.max_le.2 ⟨room, roomLater⟩⟩

theorem Members.proper_of_json : (members : Members) → (depth : Nat) →
    (ms : List (String × Json)) → members.json depth = .ok ms →
    MembersProper ms ∧ memberNesting ms ≤ depth
  | .done, _, _, rfl => ⟨trivial, Nat.zero_le _⟩
  | .more k value rest, depth, ms, read => by
    obtain ⟨key, x, later, -, first, second, rfl⟩ := Members.json_more_eq_ok_iff.1 read
    obtain ⟨proper, room⟩ := value.proper_of_json depth x first
    obtain ⟨properLater, roomLater⟩ := rest.proper_of_json depth later second
    exact ⟨⟨proper, properLater⟩, Nat.max_le.2 ⟨room, roomLater⟩⟩
end

mutual
theorem Tree.spells_of_json : (t : Tree) → (depth : Nat) → (x : Json) → t.DistinctKeys →
    t.json depth = .ok x → t.Spells x
  | .null, _, _, _, rfl => .null
  | .bool b, _, _, _, rfl => .bool b
  | .number n, depth, x, _, read => by
    rw [Tree.json] at read
    split at read <;> cases read
    exact .number ‹_›
  | .string q, depth, x, _, read => by
    obtain ⟨s, text, rfl⟩ := map_eq_ok_iff.1 read
    exact .string text
  | .array items, depth, x, distinct, read => by
    obtain ⟨d, xs, rfl, inner, rfl⟩ := Tree.json_array_eq_ok_iff.1 read
    exact .array (items.spells_of_json d xs distinct inner)
  | .object members, depth, x, distinct, read => by
    obtain ⟨d, ms, rfl, inner, rfl⟩ := Tree.json_object_eq_ok_iff.1 read
    rw [Table.ofEntries_of_distinct (distinct_of_keyTexts inner distinct.1)]
    exact .object (members.spells_of_json d ms distinct.2 inner)

theorem Items.spells_of_json : (items : Items) → (depth : Nat) → (xs : List Json) →
    items.DistinctKeys → items.json depth = .ok xs → items.Spells xs
  | .done, _, _, _, rfl => .done
  | .more head rest, depth, xs, distinct, read => by
    obtain ⟨x, later, first, second, rfl⟩ := Items.json_more_eq_ok_iff.1 read
    exact .more (head.spells_of_json depth x distinct.1 first)
      (rest.spells_of_json depth later distinct.2 second)

theorem Members.spells_of_json : (members : Members) → (depth : Nat) →
    (ms : List (String × Json)) → members.DistinctKeys → members.json depth = .ok ms →
    members.Spells ms
  | .done, _, _, _, rfl => .done
  | .more k value rest, depth, ms, distinct, read => by
    obtain ⟨key, x, later, name, first, second, rfl⟩ := Members.json_more_eq_ok_iff.1 read
    exact .more name (value.spells_of_json depth x distinct.1 first)
      (rest.spells_of_json depth later distinct.2 second)
end

end ContractBuild.Json
