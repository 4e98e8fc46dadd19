import ContractBuild.Proofs.Json.Reprint

/-!
# Records that are read and printed again

A record whose fields are read from the prints of their members is read from the print of its
object, in a relation that is made from those of its fields. In a print no member comes twice, and
fields that were absent stay so.
-/

namespace ContractBuild.Json

namespace Fields

open Relator

variable {α β : Type} {p : String → Json → Prop} {change : String → Json → Json}
  {names names' : List String}

/-- If each member is as `p` says and is changed, what is read from the print of the object is
related to what was read before. No other than the named members are read. -/
structure Turns (fields : Fields α) (names : List String) (p : String → Json → Prop)
    (change : String → Json → Json) (R : α → α → Prop) : Prop where
  within : fields.Within names
  members : ∀ depth depth' members ms a, (∀ m ∈ Table.ofEntries ms, p m.1 m.2) →
    members.json depth' = .ok ms → fields.Reads depth members a →
    ∃ b, fields.Reads depth (memberTrees (Table.mapValues change (Table.ofEntries ms))) b ∧ R a b

section

variable {fields : Fields α} {left : Fields (α → β)} {right : Fields α} {R : α → α → Prop}
  {S : β → β → Prop}

theorem Turns.map (turns : fields.Turns names p change R) {f : α → β} (keeps : (R ⇒ S) f f) :
    (f <$> fields).Turns names p change S where
  within := within_map turns.within f
  members depth depth' members ms y fit read given := by
    obtain ⟨a, inner, rfl⟩ := (reads_map_iff (members.sound_of_json read)).1 given
    obtain ⟨b, again, related⟩ := turns.members depth depth' members ms a fit read inner
    exact ⟨f b, (reads_map_iff (memberTrees_sound _)).2 ⟨b, again, rfl⟩, keeps related⟩

theorem Turns.seq (turns : left.Turns names p change (R ⇒ S))
    (turns' : right.Turns names' p change R) (apart : names.Disjoint names') :
    (left <*> right).Turns (names ++ names') p change S where
  within := within_seq turns.within turns'.within
  members depth depth' members ms y fit read given := by
    obtain ⟨f, a, first, second, rfl⟩ :=
      (reads_seq_iff (members.sound_of_json read) turns.within turns'.within apart).1 given
    obtain ⟨g, again, related⟩ := turns.members depth depth' members ms f fit read first
    obtain ⟨b, again', related'⟩ := turns'.members depth depth' members ms a fit read second
    refine ⟨g b, ?_, related related'⟩
    exact (reads_seq_iff (memberTrees_sound _) turns.within turns'.within apart).2
      ⟨g, b, again, again', rfl⟩

end

section

variable {name : String} {r : Reader α} {R : α → α → Prop} {absent : Except Problem α}
  {short : Option α}

theorem turns_field (turns : r.Turns (p name) (change name) R)
    (kept : ∀ x, absent = .ok x → R x x) : (field name r absent short).Turns [name] p change R where
  within := within_field name r absent short
  members depth depth' members ms a fit read given := by
    have distinct := (Table.distinct_ofEntries ms).mapValues change
    have sound := memberTrees_sound (Table.mapValues change (Table.ofEntries ms))
    rcases (reads_field_iff (members.sound_of_json read)).1 given with
      ⟨none, absent⟩ | ⟨value, one, given⟩
    · refine ⟨a, (reads_field_iff sound).2 (.inl ⟨?_, absent⟩), kept a absent⟩
      rw [named_of_distinct distinct, Table.find?_mapValues, find?_of_named_nil read none]
      rfl
    · obtain ⟨x, read, found⟩ := find?_of_named_singleton read one
      obtain ⟨b, again, related⟩ :=
        turns depth depth' value x a (fit (name, x) (Table.mem_of_find? found)) read given
      refine ⟨b, (reads_field_iff sound).2 (.inr ⟨(change name x).tree, ?_, again⟩), related⟩
      rw [named_of_distinct distinct, Table.find?_mapValues, found]
      rfl

theorem turns_required (turns : r.Turns (p name) (change name) R) :
    (required name r).Turns [name] p change R :=
  turns_field turns nofun

theorem turns_defaulted (turns : r.Turns (p name) (change name) R) {default : α}
    (kept : R default default) : (defaulted name r default).Turns [name] p change R := by
  refine turns_field turns fun x eq => ?_
  cases eq
  exact kept

theorem turns_optional (turns : r.Turns (p name) (change name) R)
    (keeps : ∀ x, change name x = .null ↔ x = .null) :
    (optional name r).Turns [name] p change (Option.Rel R) :=
  turns_defaulted (turns.option keeps) .none

end

structure Stable (fields : Fields α) (names : List String) (R : α → α → Prop) : Prop
    extends fields.Turns names (fun _ _ => True) (fun _ => id) R where
  position : ∀ lack depth depth' items xs a rest, items.json depth' = .ok xs →
    fields.position lack depth items = .ok (a, rest) → ∃ b ys, rest.json depth' = .ok ys ∧
      fields.position lack depth (itemTrees xs) = .ok (b, itemTrees ys) ∧ R a b

section

variable {fields : Fields α} {left : Fields (α → β)} {right : Fields α} {R : α → α → Prop}
  {S : β → β → Prop}

theorem Stable.map (stable : fields.Stable names R) {f : α → β} (keeps : (R ⇒ S) f f) :
    (f <$> fields).Stable names S where
  toTurns := stable.toTurns.map keeps
  position lack depth depth' items xs y rest read given := by
    obtain ⟨⟨a, rest⟩, given, eq⟩ := map_eq_ok_iff.1 given
    cases eq
    obtain ⟨b, ys, later, again, related⟩ :=
      stable.position lack depth depth' items xs a rest read given
    exact ⟨f b, ys, later, map_eq_ok_iff.2 ⟨(b, itemTrees ys), again, rfl⟩, keeps related⟩

theorem Stable.seq (stable : left.Stable names (R ⇒ S)) (stable' : right.Stable names' R)
    (apart : names.Disjoint names') : (left <*> right).Stable (names ++ names') S where
  toTurns := stable.toTurns.seq stable'.toTurns apart
  position lack depth depth' items xs y rest read given := by
    obtain ⟨⟨f, between⟩, first, following⟩ := bind_eq_ok_iff.1 given
    obtain ⟨⟨a, rest⟩, second, eq⟩ := bind_eq_ok_iff.1 following
    cases pure_eq_ok_iff.1 eq
    obtain ⟨g, ys, read', again, related⟩ :=
      stable.position lack depth depth' items xs f between read first
    obtain ⟨b, zs, later, again', related'⟩ :=
      stable'.position _ depth depth' between ys a rest read' second
    refine ⟨g b, zs, later, ?_, related related'⟩
    exact bind_eq_ok_iff.2 ⟨(g, itemTrees ys), again,
      bind_eq_ok_iff.2 ⟨(b, itemTrees zs), again', rfl⟩⟩

end

section

variable {name : String} {r : Reader α} {R : α → α → Prop} {absent : Except Problem α}
  {short : Option α}

theorem stable_field (stable : r.Stable R) (kept : ∀ x, absent = .ok x → R x x)
    (kept' : ∀ x, short = some x → R x x) : (field name r absent short).Stable [name] R where
  toTurns := turns_field stable kept
  position lack depth depth' items xs a rest read given := by
    cases items with
    | done =>
      cases read
      cases short with
      | none => cases given
      | some x =>
        cases given
        exact ⟨a, [], rfl, rfl, kept' a rfl⟩
    | stopped f => cases read
    | more head rest =>
      obtain ⟨x, later, first, second, rfl⟩ := Items.json_more_eq_ok_iff.1 read
      obtain ⟨a, front, eq⟩ := map_eq_ok_iff.1 given
      cases eq
      obtain ⟨b, again, related⟩ := stable depth depth' head x a trivial first front
      exact ⟨b, later, second, map_eq_ok_iff.2 ⟨b, again, rfl⟩, related⟩

theorem stable_required (stable : r.Stable R) : (required name r).Stable [name] R :=
  stable_field stable nofun nofun

theorem stable_defaulted (stable : r.Stable R) {default : α} (kept : R default default) :
    (defaulted name r default).Stable [name] R := by
  refine stable_field stable ?_ ?_ <;> rintro x ⟨⟩ <;> exact kept

theorem stable_optional (stable : r.Stable R) :
    (optional name r).Stable [name] (Option.Rel R) :=
  stable_defaulted stable.option .none

end

end Fields

namespace Reader

variable {α : Type} {kind : String} {fields : Fields α} {names : List String}
  {p : String → Json → Prop} {change : String → Json → Json} {R : α → α → Prop}

theorem turns_record {change' : Json → Json}
    (each : ∀ ms, change' (.object ms) = .object (Table.mapValues change ms))
    (turns : fields.Turns names p change R) :
    (record kind fields).Turns (fun x => ∃ ms, x = .object ms ∧ ∀ m ∈ ms, p m.1 m.2) change' R := by
  rintro depth depth' t _ a ⟨ms, rfl, fit⟩ read given
  cases t with
  | object members =>
    obtain ⟨d, ms', -, inner, eq⟩ := Tree.json_object_eq_ok_iff.1 read
    cases eq
    obtain ⟨d', rfl, reads⟩ := record_object_eq_ok_iff.1 given
    obtain ⟨b, again, related⟩ := turns.members d' d members ms' a fit inner reads
    refine ⟨b, ?_, related⟩
    rw [each]
    exact record_object_eq_ok_iff.2 ⟨d', rfl, again⟩
  | array items =>
    obtain ⟨_, _, _, _, eq⟩ := Tree.json_array_eq_ok_iff.1 read
    cases eq
  | null | bool | number | string | broken => cases given

theorem stable_record (stable : fields.Stable names R) : (record kind fields).Stable R := by
  refine Stable.intro fun depth depth' t x a read given => ?_
  cases t with
  | object members =>
    obtain ⟨d, ms, -, -, rfl⟩ := Tree.json_object_eq_ok_iff.1 read
    have each : ∀ ms : List (String × Json), id (Json.object ms) =
        .object (Table.mapValues (fun _ => id) ms) := fun ms => by
      rw [Table.mapValues_id]
      rfl
    exact turns_record each stable.toTurns depth depth' _ _ a ⟨_, rfl, fun _ _ => trivial⟩ read given
  | array items =>
    obtain ⟨d, xs, -, inner, rfl⟩ := Tree.json_array_eq_ok_iff.1 read
    obtain ⟨d', entered, given⟩ := bind_eq_ok_iff.1 given
    obtain ⟨⟨a', rest⟩, taken, closed⟩ := bind_eq_ok_iff.1 given
    obtain ⟨⟨⟩, last, eq⟩ := bind_eq_ok_iff.1 closed
    cases pure_eq_ok_iff.1 eq
    obtain rfl := surplus_eq_ok last
    obtain ⟨b, ys, later, again, related⟩ := stable.position _ d' d items xs a .done inner taken
    cases later
    exact ⟨b, bind_eq_ok_iff.2 ⟨d', entered, bind_eq_ok_iff.2 ⟨(b, .done), again, rfl⟩⟩, related⟩
  | null | bool | number | string | broken => cases given

end Reader
end ContractBuild.Json
