import ContractBuild.Proofs.Json.Plain
import ContractBuild.Proofs.Json.Records
import ContractBuild.Proofs.SortedMap

/-!
# Written values are read back

A list, a map or a record is read from the tree of what it is written as if its parts are. The
levels that are left are counted: each bracket takes one of them.
-/

namespace ContractBuild.Json

/-- A plain value that is nested no deeper than so. -/
structure Fits (depth : Nat) (x : Json) : Prop where
  plain : x.Plain
  room : x.nesting ≤ depth

theorem Fits.mono {depth depth' : Nat} {x : Json} (fits : x.Fits depth) (le : depth ≤ depth') :
    x.Fits depth' :=
  ⟨fits.plain, fits.room.trans le⟩

namespace Reader

variable {α β : Type} {r : Reader α} {write : α → Json} {depth : Nat}

theorem json_tree {x : Json} (fits : x.Fits depth) : json depth x.tree = .ok x :=
  (tree_spells x fits.plain.reprints).json_eq fits.plain.proper depth fits.room

theorem string_tree (s : String) : string depth (Json.string s).tree = .ok s := text_quoted s

theorem bool_tree (b : Bool) : bool depth (Json.bool b).tree = .ok b := rfl

theorem whole_tree {expected : String} {accept : Int → Option α} {n : Int} {a : α}
    (accepted : accept n = some a) (least : -9223372036854775808 ≤ n)
    (below : n < 18446744073709551616) :
    whole expected accept depth (Json.number (.whole n least below)).tree = .ok a := by
  have value : (Number.whole n least below).numeral.value = some (.whole n least below) :=
    Number.reprints_of_isInteger trivial
  simp only [tree, whole, value, accepted]

theorem uint32_tree (n : UInt32) : uint32 depth (ofUInt32 n).tree = .ok n := by
  apply whole_tree
  have below := n.toNat_lt
  rw [uint32Of, if_pos ⟨by omega, by rw [UInt32.size]; omega⟩, Int.toNat_natCast, UInt32.ofNat_toNat]

theorem size_tree (n : UInt64) : size depth (ofUInt64 n).tree = .ok n := by
  apply whole_tree
  have below := n.toNat_lt
  rw [uint64Of, if_pos ⟨by omega, by rw [UInt64.size]; omega⟩, Int.toNat_natCast, UInt64.ofNat_toNat]

theorem int32_tree (n : Int32) : int32 depth (ofInt32 n).tree = .ok n := by
  apply whole_tree
  have least := n.le_toInt
  have below := n.toInt_lt
  rw [int32Of, if_pos ⟨by omega, by omega⟩, Int32.ofInt_toInt]

theorem check_tree {accept : α → Except String β} {x : Json} {a : α} {b : β}
    (read : r depth x.tree = .ok a) (accepted : accept a = .ok b) :
    r.check accept depth x.tree = .ok b := by
  apply bind_eq_ok_iff.2
  exact ⟨a, read, by rw [accepted]⟩

theorem option_tree {x : Json} {a : α} (some : x ≠ .null) (read : r depth x.tree = .ok a) :
    r.option depth x.tree = .ok (Option.some a) := by
  cases x with
  | null => exact absurd rfl some
  | bool | number | string | array | object => exact map_eq_ok_iff.2 ⟨a, read, rfl⟩

theorem option_ofOption {o : Option α} (some : ∀ a ∈ o, write a ≠ .null)
    (each : ∀ a ∈ o, r depth (write a).tree = .ok a) :
    r.option depth (ofOption write o).tree = .ok o := by
  cases o with
  | none => rfl
  | some a => exact option_tree (some a rfl) (each a rfl)

theorem getD_tree {r : Reader (Option α)} {x : Json} {a default : α}
    (read : r depth x.tree = .ok (some a)) : r.getD default depth x.tree = .ok a := by
  rw [getD, read]
  rfl

theorem items_itemTrees {items : List α} (each : ∀ a ∈ items, r depth (write a).tree = .ok a) :
    r.items depth (itemTrees (items.map write)) = .ok items := by
  induction items with
  | nil => rfl
  | cons a items ih =>
    obtain ⟨first, later⟩ := List.forall_mem_cons.1 each
    rw [List.map_cons, itemTrees, Reader.items, first, ih later]
    rfl

theorem list_ofList {items : List α} (each : ∀ a ∈ items, r depth (write a).tree = .ok a) :
    r.list (depth + 1) (ofList write items).tree = .ok items :=
  items_itemTrees each

theorem json_list_array {items : List Json} (fit : ∀ x ∈ items, x.Fits depth) :
    json.list (depth + 1) (Json.array items).tree = .ok items := by
  have read : json.list (depth + 1) (ofList id items).tree = .ok items :=
    list_ofList fun x mem => json_tree (fit x mem)
  rwa [ofList, List.map_id] at read

theorem entries_memberTrees_map {κ : Type} {key : Quoted → Except Problem κ} (spell : κ → String)
    {entries : List (κ × α)} (named : ∀ e ∈ entries, key (quoted (spell e.1)) = .ok e.1)
    (each : ∀ e ∈ entries, r depth (write e.2).tree = .ok e.2) :
    Reader.entries key r depth (memberTrees (entries.map fun e => (spell e.1, write e.2))) =
      .ok entries := by
  induction entries with
  | nil => rfl
  | cons e entries ih =>
    obtain ⟨name, names⟩ := List.forall_mem_cons.1 named
    obtain ⟨first, later⟩ := List.forall_mem_cons.1 each
    simp only [List.map_cons, memberTrees, Reader.entries, name, first, ih names later]
    rfl

theorem mapOf_object {κ : Type} [Ord κ] [Std.TransOrd κ] [Std.LawfulEqOrd κ]
    {key : Quoted → Except Problem κ} (spell : κ → String) {m : SortedMap κ α}
    (named : ∀ e ∈ m.entries, key (quoted (spell e.1)) = .ok e.1)
    (each : ∀ e ∈ m.entries, r depth (write e.2).tree = .ok e.2) :
    mapOf key r (depth + 1) (Json.object (m.entries.map fun e => (spell e.1, write e.2))).tree =
      .ok m := by
  apply bind_eq_ok_iff.2
  refine ⟨depth, rfl, bind_eq_ok_iff.2 ⟨m.entries, entries_memberTrees_map spell named each, ?_⟩⟩
  rw [SortedMap.ofList_entries]
  rfl

theorem map_ofMap {m : SortedMap String α} (each : ∀ e ∈ m.entries, r depth (write e.2).tree = .ok e.2) :
    r.map (depth + 1) (ofMap write m).tree = .ok m :=
  mapOf_object id (fun e _ => text_quoted e.1) each

theorem plainChars_map_plain (cs : List Char) : plainChars (cs.map .plain) = cs := by
  induction cs with
  | nil => rfl
  | cons c cs ih => exact congrArg (c :: ·) ih

theorem quoted_digits (n : Nat) :
    quoted (Digits.text n) = ⟨(Digits.digits n).map .plain, none⟩ := by
  have plain : ∀ c ∈ Digits.digits n, Piece.ofChar c = .plain c := by
    intro c mem
    have digit := Digits.isDigit_of_mem_digits mem
    have quote : c ≠ '"' := by
      rintro rfl
      exact absurd digit (by decide)
    have backslash : c ≠ '\\' := by
      rintro rfl
      exact absurd digit (by decide)
    have visible : ¬ c.toNat < 0x20 := by
      rw [Char.isDigit, Bool.and_eq_true, decide_eq_true_eq] at digit
      have least : '0'.toNat ≤ c.toNat := digit.1
      exact fun control => absurd (least.trans_lt control) (by decide)
    rw [Piece.ofChar, escape_visible quote backslash visible]
  rw [quoted, Digits.text, String.toList_ofList, List.map_congr_left plain]

theorem uint32Key_digits (n : UInt32) : uint32Key (quoted (Digits.text n.toNat)) = .ok n := by
  have scanned : Numeral.scan (Digits.digits n.toNat) = .ok ((Number.ofUInt32 n).numeral, []) := by
    have found := Numeral.scan_chars_append (Number.numeral_wellSpelled (.ofUInt32 n)) .nil
    rwa [List.append_nil, ← Number.chars_eq] at found
  have value : uint32 0 (.number (Number.ofUInt32 n).numeral) = .ok n := uint32_tree n
  obtain ⟨c, cs, eq⟩ := List.exists_cons_of_ne_nil (Digits.digits_ne_nil n.toNat)
  have digit : c.isDigit = true := by
    apply Digits.isDigit_of_mem_digits
    rw [eq]
    exact List.mem_cons_self
  have leading : (Digits.digits n.toNat).head?.any (fun c => c = '-' || c.isDigit) = true := by
    simp [eq, digit]
  simp only [uint32Key, quoted_digits, plainChars_map_plain, leading, scanned, value,
    List.length_map]
  rfl

theorem uint32Map_ofUInt32Map {m : SortedMap UInt32 α}
    (each : ∀ e ∈ m.entries, r depth (write e.2).tree = .ok e.2) :
    r.uint32Map (depth + 1) (ofUInt32Map write m).tree = .ok m := by
  have named : ∀ e ∈ m.entries, uint32Key (quoted (Digits.text e.1.toNat)) = .ok e.1 := by
    intro e mem
    exact uint32Key_digits e.1
  have read := mapOf_object (fun k : UInt32 => Digits.text k.toNat) named each
  exact read

end Reader

section

variable {fields : List (String × Option Json)} {name : String} {o : Option Json}

def writtenMembers (fields : List (String × Option Json)) : List (String × Json) :=
  fields.filterMap fun f => f.2.map (f.1, ·)

theorem distinct_writtenMembers (names : (fields.map Prod.fst).Nodup) :
    Table.Distinct (writtenMembers fields) :=
  names.sublist (fst_filterMap_sublist fields)

theorem find?_writtenMembers (names : (fields.map Prod.fst).Nodup) (mem : (name, o) ∈ fields) :
    Table.find? name (writtenMembers fields) = o := by
  have distinct := distinct_writtenMembers names
  cases o with
  | some x => exact Table.find?_of_mem distinct (mem_filterMap_fields.2 mem)
  | none =>
    cases found : Table.find? name (writtenMembers fields) with
    | none => rfl
    | some x =>
      have other := mem_filterMap_fields.1 (Table.mem_of_find? found)
      exact (Prod.mk.inj (List.inj_on_of_nodup_map names mem other rfl)).2.symm

theorem room_of_object {ms : List (String × Json)} {depth : Nat}
    (room : (object ms).nesting ≤ depth + 1) : ∀ m ∈ ms, m.2.nesting ≤ depth := by
  rw [nesting] at room
  apply memberNesting_le_iff.1
  omega

theorem room_of_record {x : Json} {depth : Nat} (name : String)
    (room : (record fields).nesting ≤ depth + 1) (mem : (name, some x) ∈ fields) :
    x.nesting ≤ depth :=
  room_of_object room (name, x) (mem_filterMap_fields.2 mem)

theorem object_eq_record (ms : List (String × Json)) :
    Json.object ms = record (ms.map fun m => (m.1, some m.2)) := by
  simp [record]

end

namespace Fields

variable {α β : Type} {fields : Fields α} {left : Fields (α → β)} {right : Fields α}
  {names names' : List String} {depth : Nat} {written : List (String × Option Json)}

/-- The fields have these names, and are read from the members of what was written as `a`. -/
structure Recovers (fields : Fields α) (names : List String) (depth : Nat)
    (written : List (String × Option Json)) (a : α) : Prop where
  within : fields.Within names
  reads : names.Nodup → (written.map Prod.fst).Nodup →
    fields.Reads depth (memberTrees (writtenMembers written)) a

theorem Recovers.map {a : α} (recovers : fields.Recovers names depth written a) (f : α → β) :
    (f <$> fields).Recovers names depth written (f a) where
  within := within_map recovers.within f
  reads apart distinct :=
    (reads_map_iff (memberTrees_sound _)).2 ⟨a, recovers.reads apart distinct, rfl⟩

theorem Recovers.seq {f : α → β} {a : α} (recovers : left.Recovers names depth written f)
    (recovers' : right.Recovers names' depth written a) :
    (left <*> right).Recovers (names ++ names') depth written (f a) where
  within := within_seq recovers.within recovers'.within
  reads apart distinct := by
    obtain ⟨first, second, disjoint⟩ := List.nodup_append'.1 apart
    apply (reads_seq_iff (memberTrees_sound _) recovers.within recovers'.within disjoint).2
    exact ⟨f, a, recovers.reads first distinct, recovers'.reads second distinct, rfl⟩

section

variable {name : String} {r : Reader α} {absent : Except Problem α}
  {short : Option α} {a : α}

theorem recovers_field {x : Json} (mem : (name, some x) ∈ written) (read : r depth x.tree = .ok a) :
    (field name r absent short).Recovers [name] depth written a where
  within := within_field name r absent short
  reads _ distinct := by
    apply (reads_field_iff (memberTrees_sound _)).2
    refine .inr ⟨x.tree, ?_, read⟩
    rw [named_of_distinct (distinct_writtenMembers distinct), find?_writtenMembers distinct mem]
    rfl

theorem recovers_absent (mem : (name, none) ∈ written) (missing : absent = .ok a) :
    (field name r absent short).Recovers [name] depth written a where
  within := within_field name r absent short
  reads _ distinct := by
    apply (reads_field_iff (memberTrees_sound _)).2
    refine .inl ⟨?_, missing⟩
    rw [named_of_distinct (distinct_writtenMembers distinct), find?_writtenMembers distinct mem]
    rfl

theorem recovers_required {x : Json} (mem : (name, some x) ∈ written)
    (read : r depth x.tree = .ok a) : (required name r).Recovers [name] depth written a :=
  recovers_field mem read

theorem recovers_defaulted {x : Json} {default : α} (mem : (name, some x) ∈ written)
    (read : r depth x.tree = .ok a) : (defaulted name r default).Recovers [name] depth written a :=
  recovers_field mem read

variable {write : α → Json} {value : Option α}

theorem recovers_optional (mem : (name, value.map write) ∈ written)
    (some : ∀ a ∈ value, write a ≠ .null) (each : ∀ a ∈ value, r depth (write a).tree = .ok a) :
    (optional name r).Recovers [name] depth written value := by
  cases value with
  | none => exact recovers_absent mem rfl
  | some a => exact recovers_field mem (Reader.option_tree (some a rfl) (each a rfl))

theorem recovers_optional_json {tree : Option Json} (mem : (name, tree) ∈ written)
    (fits : ∀ x ∈ tree, x ≠ .null ∧ x.Fits depth) :
    (optional name Reader.json).Recovers [name] depth written tree := by
  apply recovers_optional (by rwa [Option.map_id])
  · exact fun x some => (fits x some).1
  · exact fun x some => Reader.json_tree (fits x some).2

theorem recovers_ofOption {absent : Except Problem (Option α)} {short : Option (Option α)}
    (mem : (name, Option.some (ofOption write value)) ∈ written)
    (some : ∀ a ∈ value, write a ≠ .null) (each : ∀ a ∈ value, r depth (write a).tree = .ok a) :
    (field name r.option absent short).Recovers [name] depth written value :=
  recovers_field mem (Reader.option_ofOption some each)

theorem recovers_unlessEmpty {items : List α}
    (mem : (name, unlessEmpty write items) ∈ written)
    (each : ∀ a ∈ items, r depth (write a).tree = .ok a) :
    (defaulted name r.list []).Recovers [name] (depth + 1) written items := by
  cases items with
  | nil => exact recovers_absent mem rfl
  | cons a items => exact recovers_field mem (Reader.list_ofList each)

end

end Fields

theorem Reader.record_written {α : Type} {kind : String} {fields : Fields α} {names : List String}
    {depth : Nat} {written : List (String × Option Json)} {a : α}
    (recovers : fields.Recovers names depth written a) (apart : names.Nodup)
    (distinct : (written.map Prod.fst).Nodup) :
    Reader.record kind fields (depth + 1) (Json.record written).tree = .ok a :=
  Reader.record_object_eq_ok_iff.2 ⟨depth, rfl, recovers.reads apart distinct⟩

namespace Fields

variable {α β : Type} {left : Fields (SortedMap String α → β)} {r : Reader α} {depth : Nat}
  {members : List (String × Json)}

theorem gather_known (known : ∀ m ∈ members, (left.take m.1).isSome = true)
    {draft next : left.Draft} (gathered : left.gather depth draft (memberTrees members) = .ok next)
    {later : List (String × Json)} {taken : SortedMap String α} {found : (left <*> others r).Draft}
    (rest : (left <*> others r).gather depth (next, taken) (memberTrees later) = .ok found) :
    (left <*> others r).gather depth (draft, taken) (memberTrees (members ++ later)) =
      .ok found := by
  induction members generalizing draft with
  | nil =>
    cases gathered
    exact rest
  | cons m members ih =>
    obtain ⟨first, others⟩ := List.forall_mem_cons.1 known
    obtain ⟨step, takes⟩ := Option.isSome_iff_exists.1 first
    obtain ⟨draft', stepped, gathered⟩ := (gather_taken left (text_quoted m.1) takes _ _).1 gathered
    apply (gather_taken_left (Fields.others r) (text_quoted m.1) takes draft taken found).2
    exact ⟨draft', stepped, ih others gathered⟩

variable {write : α → Json} {entries : List (String × α)}

theorem gather_unknown (unknown : ∀ e ∈ entries, left.take e.1 = none)
    (each : ∀ e ∈ entries, r depth (write e.2).tree = .ok e.2) (draft : left.Draft)
    (taken : SortedMap String α) :
    (left <*> others r).gather depth (draft, taken)
        (memberTrees (entries.map fun e => (e.1, write e.2))) =
      .ok (draft, entries.foldl (fun m e => m.insert e.1 e.2) taken) := by
  induction entries generalizing taken with
  | nil => rfl
  | cons e entries ih =>
    obtain ⟨passed, later⟩ := List.forall_mem_cons.1 unknown
    obtain ⟨read, reads⟩ := List.forall_mem_cons.1 each
    apply (gather_taken_right (text_quoted e.1) passed (take_others r e.1) draft taken _).2
    exact ⟨_, map_eq_ok_iff.2 ⟨e.2, read, rfl⟩, ih later reads _⟩

end Fields

theorem Reader.openRecord_written {α β : Type} (kind : String) {left : Fields (SortedMap String α → β)}
    {r : Reader α} {names : List String} {depth : Nat} {known : List (String × Option Json)}
    {f : SortedMap String α → β} {m : SortedMap String α} {write : α → Json}
    (recovers : left.Recovers names depth known f) (apart : names.Nodup)
    (distinct : (known.map Prod.fst).Nodup)
    (takes : ∀ member ∈ writtenMembers known, (left.take member.1).isSome = true)
    (others : ∀ e ∈ m.entries, e.1 ∉ names)
    (each : ∀ e ∈ m.entries, r depth (write e.2).tree = .ok e.2) :
    Reader.openRecord kind (left <*> Fields.others r) (depth + 1)
      (Json.object (writtenMembers known ++ m.entries.map fun e => (e.1, write e.2))).tree =
        .ok (f m) := by
  obtain ⟨draft, gathered, finished⟩ := recovers.reads apart distinct
  have unknown : ∀ e ∈ m.entries, left.take e.1 = none := by
    intro e mem
    apply Option.not_isSome_iff_eq_none.1
    exact fun taken => others e mem (recovers.within e.1 taken)
  have all := Fields.gather_known takes gathered (Fields.gather_unknown unknown each draft .empty)
  apply bind_eq_ok_iff.2
  refine ⟨depth, rfl, bind_eq_ok_iff.2 ⟨_, all, ?_⟩⟩
  apply bind_eq_ok_iff.2
  exact ⟨f, finished, congrArg (fun m => Except.ok (f m)) m.ofList_entries⟩

end ContractBuild.Json
