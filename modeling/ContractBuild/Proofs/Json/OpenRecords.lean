import ContractBuild.Proofs.Json.Decoded
import ContractBuild.Proofs.Json.Records

/-!
# Records that take every field

A record that takes every field is read from an object all of whose members are values. The known
fields are read from the members with their names, and what is left holds the last value under each
other name.
-/

namespace ContractBuild

namespace Table

variable {κ ν : Type} [DecidableEq κ] {k : κ} {entries : List (κ × ν)} {x : ν}

def last? (k : κ) : List (κ × ν) → Option ν
  | [] => none
  | e :: rest => (last? k rest).or (if e.1 = k then some e.2 else none)

theorem find?_ofEntries_eq_last? (k : κ) (entries : List (κ × ν)) :
    find? k (ofEntries entries) = last? k entries := by
  rw [find?_ofEntries]
  induction entries with
  | nil => rfl
  | cons e rest ih =>
    rw [last?, ← ih]
    by_cases same : e.1 = k
    · rw [List.filter_cons_of_pos (by simpa using same), if_pos same, List.getLast?_cons]
      cases (rest.filter (·.1 = k)).getLast? <;> simp
    · rw [List.filter_cons_of_neg (by simpa using same), if_neg same, Option.or_none]

theorem find?_append_eq_or (k : κ) (first entries : List (κ × ν)) :
    find? k (first ++ entries) = (find? k first).or (find? k entries) := by
  induction first with
  | nil => rfl
  | cons e first ih =>
    rw [List.cons_append, find?, find?, ih]
    split <;> rfl

theorem mem_of_last? (found : last? k entries = some x) : (k, x) ∈ entries := by
  rw [← find?_ofEntries_eq_last?] at found
  exact mem_of_mem_ofEntries (mem_of_find? found)

end Table

namespace Json

variable {α β : Type} {depth : Nat}

namespace Reader

variable {r : Reader α} {write : α → Json}

def Decodes (r : Reader α) : Prop := ∀ depth t a, r depth t = .ok a → ∃ x, t.json depth = .ok x

/-- Whatever is read is the value that it is written as. -/
def Denotes (r : Reader α) (write : α → Json) : Prop :=
  ∀ depth t a, r depth t = .ok a → t.json depth = .ok (write a)

theorem Denotes.decodes (denotes : r.Denotes write) : r.Decodes :=
  fun depth t a read => ⟨write a, denotes depth t a read⟩

theorem json_denotes : json.Denotes id := fun _ _ _ read => read

theorem string_denotes : string.Denotes .string := by
  intro depth t s read
  cases t with
  | string q => exact map_eq_ok_iff.2 ⟨s, read, rfl⟩
  | null | bool | number | array | object | broken => cases read

theorem bool_denotes : bool.Denotes .bool := by
  intro depth t b read
  cases t with
  | bool b' =>
    cases read
    rfl
  | null | string | number | array | object | broken => cases read

theorem size_denotes : size.Denotes ofUInt64 := by
  intro depth t n read
  cases t with
  | number m =>
    simp only [size, whole] at read
    split at read
    · cases read
    · rename_i i least below value
      split at read
      · rename_i n' accepted
        cases read
        rw [uint64Of] at accepted
        split at accepted
        · rename_i range
          cases accepted
          have size : UInt64.size = 18446744073709551616 := rfl
          have same : (UInt64.ofNat i.toNat).toNat = i := by
            rw [UInt64.toNat_ofNat_of_lt' (by omega)]
            omega
          simp only [Tree.json, value, ofUInt64, Number.ofUInt64, same]
        · cases accepted
      · cases read
    · cases read
  | null | string | bool | array | object | broken => cases read

theorem Denotes.option (denotes : r.Denotes write) : r.option.Denotes (ofOption write) := by
  intro depth t o read
  by_cases null : t = .null
  · subst null
    cases read
    rfl
  · rw [option_of_ne_null null] at read
    obtain ⟨a, inner, rfl⟩ := map_eq_ok_iff.1 read
    exact denotes depth t a inner

theorem Decodes.check (decodes : r.Decodes) (accept : α → Except String β) :
    (r.check accept).Decodes := by
  intro depth t b read
  obtain ⟨a, inner, -⟩ := bind_eq_ok_iff.1 read
  exact decodes depth t a inner

end Reader

namespace Fields

variable {fields : Fields α} {left : Fields (α → β)} {right : Fields α} {members : Members}

def Decodes (fields : Fields α) : Prop :=
  ∀ name step, fields.take name = some step →
    ∀ depth t draft next, step depth t draft = .ok next → ∃ x, t.json depth = .ok x

theorem Decodes.map (decodes : fields.Decodes) (f : α → β) : (f <$> fields).Decodes := decodes

theorem Decodes.seq (decodes : left.Decodes) (decodes' : right.Decodes) :
    (left <*> right).Decodes := by
  intro name step taken depth t draft next stepped
  rcases step_of_take_seq taken stepped with ⟨one, _, first, inner, -⟩ | ⟨one, _, second, inner, -⟩
  · exact decodes name one first depth t _ _ inner
  · exact decodes' name one second depth t _ _ inner

theorem decodes_field {r : Reader α} (decodes : r.Decodes) (name : String)
    (absent : Except Problem α) (short : Option α) : (field name r absent short).Decodes := by
  intro given step taken depth t draft next stepped
  simp only [field] at taken
  split at taken <;> cases taken
  cases draft with
  | some a => cases stepped
  | none =>
    obtain ⟨a, read, -⟩ := map_eq_ok_iff.1 stepped
    exact decodes depth t a read

theorem decodes_others {r : Reader α} (decodes : r.Decodes) : (others r).Decodes := by
  intro name step taken depth t draft next stepped
  cases taken
  obtain ⟨a, read, -⟩ := map_eq_ok_iff.1 stepped
  exact decodes depth t a read

theorem Decodes.sound (decodes : fields.Decodes) : (members : Members) →
    (draft found : fields.Draft) → fields.gather depth draft members = .ok found → members.Sound
  | .done, _, _, _ => .done
  | .stopped f, _, _, gathered => by cases gathered
  | .more k value rest, draft, found, gathered => by
    obtain ⟨name, text, gathered⟩ := bind_eq_ok_iff.1 gathered
    cases taken : fields.take name with
    | none =>
      rw [taken] at gathered
      obtain ⟨_, skipped, gathered⟩ := bind_eq_ok_iff.1 gathered
      exact .more text skipped (decodes.sound rest draft found gathered)
    | some step =>
      rw [taken] at gathered
      obtain ⟨next, stepped, gathered⟩ := bind_eq_ok_iff.1 gathered
      obtain ⟨x, read⟩ := decodes name step taken depth value draft next stepped
      exact .more text (value.skip_of_json depth x read) (decodes.sound rest next found gathered)

theorem Decodes.exists_json (decodes : fields.Decodes)
    (all : ∀ name, (fields.take name).isSome = true) : (members : Members) →
    (draft found : fields.Draft) → fields.gather depth draft members = .ok found →
      ∃ ms, members.json depth = .ok ms
  | .done, _, _, _ => ⟨[], rfl⟩
  | .stopped f, _, _, gathered => by cases gathered
  | .more k value rest, draft, found, gathered => by
    obtain ⟨name, text, gathered⟩ := bind_eq_ok_iff.1 gathered
    obtain ⟨step, taken⟩ := Option.isSome_iff_exists.1 (all name)
    rw [taken] at gathered
    obtain ⟨next, stepped, gathered⟩ := bind_eq_ok_iff.1 gathered
    obtain ⟨x, read⟩ := decodes name step taken depth value draft next stepped
    obtain ⟨later, reads⟩ := decodes.exists_json all rest next found gathered
    exact ⟨_, Members.json_more_eq_ok_iff.2 ⟨name, x, later, text, read, reads, rfl⟩⟩

theorem take_others_isSome (left : Fields (SortedMap String α → β)) (r : Reader α) (name : String) :
    ((left <*> others r).take name).isSome = true := by
  cases taken : left.take name with
  | some step =>
    rw [take_seq_left taken]
    rfl
  | none =>
    rw [take_seq_right taken]
    rfl

theorem gather_others {left : Fields (SortedMap String Json → β)} {ms : List (String × Json)}
    (read : members.json depth = .ok ms) {draft found : left.Draft} {m m' : SortedMap String Json}
    (gathered : (left <*> others Reader.json).gather depth (draft, m) members = .ok (found, m')) :
    left.gather depth draft members = .ok found ∧ ∀ key, m'.find? key =
      if (left.take key).isSome = true then m.find? key
      else (Table.last? key ms).or (m.find? key) := by
  induction ms generalizing members draft m with
  | nil =>
    obtain rfl := Members.eq_done_of_json read
    cases gathered
    exact ⟨rfl, fun key => by simp [Table.last?]⟩
  | cons e ms ih =>
    obtain ⟨name, x⟩ := e
    obtain ⟨k, value, rest, rfl, text, first, later⟩ := Members.exists_more_of_json read
    cases taken : left.take name with
    | some step =>
      obtain ⟨next, stepped, gathered⟩ :=
        (gather_taken_left (others Reader.json) text taken draft m _).1 gathered
      obtain ⟨front, back⟩ := ih later gathered
      refine ⟨(gather_taken left text taken _ _).2 ⟨_, stepped, front⟩, fun key => ?_⟩
      rw [back key, Table.last?]
      by_cases known : (left.take key).isSome = true
      · rw [if_pos known, if_pos known]
      · have other : name ≠ key := fun same => known (by rw [← same, taken]; rfl)
        rw [if_neg known, if_neg known, if_neg other, Option.or_none]
    | none =>
      obtain ⟨_, put, gathered⟩ :=
        (gather_taken_right text taken (take_others Reader.json name) draft m _).1 gathered
      obtain ⟨x', inner, rfl⟩ := map_eq_ok_iff.1 put
      cases first.symm.trans inner
      obtain ⟨front, back⟩ := ih later gathered
      refine ⟨(gather_skipped left text (value.skip_of_json depth x first) taken _ _).2 front,
        fun key => ?_⟩
      rw [back key, Table.last?]
      by_cases same : name = key
      · subst same
        simp [taken]
      · rw [SortedMap.find?_insert_ne _ (Ne.symm same), if_neg same, Option.or_none]

theorem map_write_of_reads {ms : List (String × Json)} {name : String} {r : Reader α}
    {write : α → Json} {o : Option α} (denotes : r.Denotes write) (some : ∀ a, write a ≠ .null)
    (read : members.json depth = .ok ms) (reads : (optional name r).Reads depth members o) :
    o.map write = (Table.last? name ms).filter (· ≠ .null) := by
  rw [← Table.find?_ofEntries_eq_last?]
  rcases (reads_field_iff (Members.sound_of_json read)).1 reads with ⟨none, eq⟩ | ⟨value, one, inner⟩
  · cases eq
    rw [find?_of_named_nil read none]
    rfl
  · obtain ⟨x, first, found⟩ := find?_of_named_singleton read one
    cases first.symm.trans (denotes.option depth value o inner)
    rw [found]
    cases o with
    | none => rfl
    | some a => rw [Option.map_some, ofOption, Option.filter_some, if_pos (by simpa using some a)]

end Fields
end Json
end ContractBuild
