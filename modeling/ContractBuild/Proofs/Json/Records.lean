import ContractBuild.Json.Record
import ContractBuild.Proofs.Json.Uniform

/-!
# What a record is read from

When a record is read from an object its fields look for one member each, and all other members are
skipped. So reading a record comes down to reading its fields: a field is read from the only member
with its name, or it is absent.
-/

namespace ContractBuild.Json

namespace Members

/-- Members that can be gone through: the keys are texts, and every value can be skipped. -/
inductive Sound : Members → Prop
  | done : Sound .done
  | more {k : Quoted} {value : Tree} {rest : Members} {key : String} (name : k.text = .ok key)
    (skipped : value.skip = .ok ()) (later : Sound rest) : Sound (.more k value rest)

def named (name : String) : Members → List Tree
  | .more key value rest => if key.text = .ok name then value :: rest.named name else rest.named name
  | _ => []

theorem named_more {k : Quoted} {value : Tree} {rest : Members} {key : String}
    (text : k.text = .ok key) (name : String) : (Members.more k value rest).named name =
      if key = name then value :: rest.named name else rest.named name := by
  simp only [named, text, Except.ok.injEq]

end Members

namespace Fields

variable {α β : Type} {fields : Fields α} {left : Fields (α → β)} {right : Fields α} {depth : Nat}
  {members : Members} {x : α} {y : β}

/-- The record that is read from the members of an object is `x`. -/
def Reads (fields : Fields α) (depth : Nat) (members : Members) (x : α) : Prop :=
  ∃ draft, fields.gather depth fields.start members = .ok draft ∧ fields.finish draft = .ok x

def Within (fields : Fields α) (names : List String) : Prop :=
  ∀ name, (fields.take name).isSome = true → name ∈ names

theorem within_map {names : List String} (within : fields.Within names) (f : α → β) :
    (f <$> fields).Within names := within

theorem step_of_take_seq {name : String} {step : Nat → Tree → (left <*> right).Draft →
      Except Problem (left <*> right).Draft} {t : Tree} {draft next : (left <*> right).Draft}
    (taken : (left <*> right).take name = some step) (stepped : step depth t draft = .ok next) :
    (∃ one draft', left.take name = some one ∧ one depth t draft.1 = .ok draft' ∧
        next = (draft', draft.2)) ∨
      ∃ one draft', right.take name = some one ∧ one depth t draft.2 = .ok draft' ∧
        next = (draft.1, draft') := by
  cases first : left.take name with
  | some one =>
    rw [take_seq_left first] at taken
    cases taken
    obtain ⟨draft', inner, rfl⟩ := map_eq_ok_iff.1 stepped
    exact .inl ⟨one, draft', rfl, inner, rfl⟩
  | none =>
    rw [take_seq_right first] at taken
    obtain ⟨one, second, rfl⟩ := Option.map_eq_some_iff.1 taken
    obtain ⟨draft', inner, rfl⟩ := map_eq_ok_iff.1 stepped
    exact .inr ⟨one, draft', second, inner, rfl⟩

theorem within_seq {names names' : List String} (within : left.Within names)
    (within' : right.Within names') : (left <*> right).Within (names ++ names') := by
  intro name taken
  cases first : left.take name with
  | some step => exact List.mem_append_left _ (within name (by rw [first]; rfl))
  | none =>
    rw [take_seq_right first] at taken
    exact List.mem_append_right _ (within' name (Option.isSome_map.symm.trans taken))

theorem within_field (name : String) (r : Reader α) (absent : Except Problem α) (short : Option α) :
    (field name r absent short).Within [name] := by
  intro given taken
  simp only [field] at taken
  split at taken
  · exact List.mem_singleton.2 ‹_›
  · cases taken

section

variable {k : Quoted} {value : Tree} {rest : Members} {key : String}

theorem gather_taken (fields : Fields α) (name : k.text = .ok key)
    {step : Nat → Tree → fields.Draft → Except Problem fields.Draft}
    (taken : fields.take key = some step) (draft found : fields.Draft) :
    fields.gather depth draft (.more k value rest) = .ok found ↔
      ∃ next, step depth value draft = .ok next ∧ fields.gather depth next rest = .ok found := by
  simp only [gather, name, bind_eq_ok_iff, Except.ok.injEq, exists_eq_left', taken]

theorem gather_taken_left (right : Fields α) (name : k.text = .ok key)
    {step : Nat → Tree → left.Draft → Except Problem left.Draft}
    (taken : left.take key = some step) (draft : left.Draft) (draft' : right.Draft)
    (found : (left <*> right).Draft) :
    (left <*> right).gather depth (draft, draft') (.more k value rest) = .ok found ↔
      ∃ next, step depth value draft = .ok next ∧
        (left <*> right).gather depth (next, draft') rest = .ok found := by
  refine (gather_taken (left <*> right) name (take_seq_left taken) _ _).trans ⟨?_, ?_⟩
  · rintro ⟨_, both, gathered⟩
    obtain ⟨next, stepped, rfl⟩ := map_eq_ok_iff.1 both
    exact ⟨next, stepped, gathered⟩
  · rintro ⟨next, stepped, gathered⟩
    exact ⟨(next, draft'), map_eq_ok_iff.2 ⟨next, stepped, rfl⟩, gathered⟩

theorem gather_taken_right (name : k.text = .ok key) (passed : left.take key = none)
    {step : Nat → Tree → right.Draft → Except Problem right.Draft}
    (taken : right.take key = some step) (draft : left.Draft) (draft' : right.Draft)
    (found : (left <*> right).Draft) :
    (left <*> right).gather depth (draft, draft') (.more k value rest) = .ok found ↔
      ∃ next, step depth value draft' = .ok next ∧
        (left <*> right).gather depth (draft, next) rest = .ok found := by
  have both : (left <*> right).take key = _ := take_seq_right passed
  rw [taken] at both
  refine (gather_taken (left <*> right) name both _ _).trans ⟨?_, ?_⟩
  · rintro ⟨_, both, gathered⟩
    obtain ⟨next, stepped, rfl⟩ := map_eq_ok_iff.1 both
    exact ⟨next, stepped, gathered⟩
  · rintro ⟨next, stepped, gathered⟩
    exact ⟨(draft, next), map_eq_ok_iff.2 ⟨next, stepped, rfl⟩, gathered⟩

theorem gather_skipped (fields : Fields α) (name : k.text = .ok key)
    (skipped : value.skip = .ok ()) (passed : fields.take key = none) (draft found : fields.Draft) :
    fields.gather depth draft (.more k value rest) = .ok found ↔
      fields.gather depth draft rest = .ok found := by
  simp only [gather, name, bind_eq_ok_iff, Except.ok.injEq, exists_eq_left', passed, skipped,
    exists_const, true_and]

end

theorem gather_map (sound : members.Sound) (fields : Fields α) (f : α → β)
    (draft found : fields.Draft) : (f <$> fields).gather depth draft members = .ok found ↔
      fields.gather depth draft members = .ok found := by
  induction sound generalizing draft with
  | done => exact Iff.rfl
  | @more k value rest key name skipped later ih =>
    cases taken : fields.take key with
    | none =>
      exact (gather_skipped (f <$> fields) name skipped taken draft found).trans
        ((ih draft).trans (gather_skipped fields name skipped taken draft found).symm)
    | some step =>
      refine (gather_taken (f <$> fields) name taken draft found).trans ?_
      refine Iff.trans ?_ (gather_taken fields name taken draft found).symm
      exact exists_congr fun next => and_congr_right fun _ => ih next

theorem gather_seq (sound : members.Sound) {names names' : List String} (within : left.Within names)
    (within' : right.Within names') (apart : names.Disjoint names') (draft found : left.Draft)
    (draft' found' : right.Draft) :
    (left <*> right).gather depth (draft, draft') members = .ok (found, found') ↔
      left.gather depth draft members = .ok found ∧
        right.gather depth draft' members = .ok found' := by
  induction sound generalizing draft draft' with
  | done =>
    refine Iff.trans (?_ : _ ↔ (draft, draft') = (found, found')) ?_
    · exact ⟨Except.ok.inj, congrArg _⟩
    · exact Prod.mk_inj.trans (and_congr ⟨congrArg _, Except.ok.inj⟩ ⟨congrArg _, Except.ok.inj⟩)
  | @more k value rest key name skipped later ih =>
    cases first : left.take key with
    | some step =>
      have other : right.take key = none := by
        rw [← Option.not_isSome_iff_eq_none]
        exact fun taken => apart (within key (by rw [first]; rfl)) (within' key taken)
      refine (gather_taken_left right name first draft draft' _).trans ?_
      rw [gather_taken left name first, gather_skipped right name skipped other,
        ← exists_and_right]
      refine exists_congr fun next => ?_
      rw [and_assoc]
      exact and_congr_right fun _ => ih next draft'
    | none =>
      rw [gather_skipped left name skipped first]
      cases second : right.take key with
      | some step =>
        refine (gather_taken_right name first second draft draft' _).trans ?_
        rw [gather_taken right name second, ← exists_and_left]
        refine exists_congr fun next => ?_
        rw [and_left_comm]
        exact and_congr_right fun _ => ih draft next
      | none =>
        have passed : (left <*> right).take key = none := by
          rw [take_seq_right first, second]
          rfl
        rw [gather_skipped right name skipped second]
        exact (gather_skipped (left <*> right) name skipped passed _ _).trans (ih draft draft')

theorem reads_map_iff (sound : members.Sound) {f : α → β} :
    (f <$> fields).Reads depth members y ↔ ∃ x, fields.Reads depth members x ∧ f x = y := by
  constructor
  · rintro ⟨draft, gathered, mapped⟩
    obtain ⟨x, finished, rfl⟩ := map_eq_ok_iff.1 mapped
    exact ⟨x, ⟨draft, (gather_map sound fields f _ _).1 gathered, finished⟩, rfl⟩
  · rintro ⟨x, ⟨draft, gathered, finished⟩, rfl⟩
    exact ⟨draft, (gather_map sound fields f _ _).2 gathered, map_eq_ok_iff.2 ⟨x, finished, rfl⟩⟩

theorem reads_seq_iff (sound : members.Sound) {names names' : List String}
    (within : left.Within names) (within' : right.Within names') (apart : names.Disjoint names') :
    (left <*> right).Reads depth members y ↔
      ∃ f x, left.Reads depth members f ∧ right.Reads depth members x ∧ f x = y := by
  constructor
  · rintro ⟨⟨draft, draft'⟩, gathered, finished⟩
    obtain ⟨gathered, gathered'⟩ := (gather_seq sound within within' apart _ _ _ _).1 gathered
    obtain ⟨f, finished, rest⟩ := bind_eq_ok_iff.1 finished
    obtain ⟨x, finished', eq⟩ := bind_eq_ok_iff.1 rest
    exact ⟨f, x, ⟨_, gathered, finished⟩, ⟨_, gathered', finished'⟩, pure_eq_ok_iff.1 eq⟩
  · rintro ⟨f, x, ⟨draft, gathered, finished⟩, ⟨draft', gathered', finished'⟩, rfl⟩
    refine ⟨(draft, draft'), (gather_seq sound within within' apart _ _ _ _).2
      ⟨gathered, gathered'⟩, ?_⟩
    exact bind_eq_ok_iff.2 ⟨f, finished, bind_eq_ok_iff.2 ⟨x, finished', rfl⟩⟩

section

variable {name : String} {r : Reader α} {absent : Except Problem α} {short : Option α}

theorem gather_field_filled (sound : members.Sound) (found : Option α) :
    (field name r absent short).gather depth (some x) members = .ok found ↔
      members.named name = [] ∧ found = some x := by
  induction sound with
  | done => exact ⟨fun h => ⟨rfl, (Except.ok.inj h).symm⟩, fun h => congrArg _ h.2.symm⟩
  | @more k value rest key text skipped later ih =>
    rw [Members.named_more text]
    by_cases same : key = name
    · refine (gather_taken (field name r absent short) text (if_pos same) _ _).trans ?_
      rw [if_pos same]
      constructor
      · rintro ⟨_, duplicate, _⟩
        cases duplicate
      · rintro ⟨some, _⟩
        cases some
    · rw [if_neg same]
      exact (gather_skipped (field name r absent short) text skipped (if_neg same) _ _).trans ih

theorem gather_field (sound : members.Sound) (found : Option α) :
    (field name r absent short).gather depth none members = .ok found ↔
      (members.named name = [] ∧ found = none) ∨
        ∃ value x, members.named name = [value] ∧ r depth value = .ok x ∧ found = some x := by
  induction sound with
  | done =>
    constructor
    · exact fun h => .inl ⟨rfl, (Except.ok.inj h).symm⟩
    · rintro (⟨-, rfl⟩ | ⟨_, _, eq, -⟩)
      · rfl
      · cases eq
  | @more k value rest key text skipped later ih =>
    rw [Members.named_more text]
    by_cases same : key = name
    · refine (gather_taken (field name r absent short) text (if_pos same) _ _).trans ?_
      rw [if_pos same]
      constructor
      · rintro ⟨_, filled, gathered⟩
        obtain ⟨x, read, rfl⟩ := map_eq_ok_iff.1 filled
        obtain ⟨only, rfl⟩ := (gather_field_filled later found).1 gathered
        exact .inr ⟨value, x, by rw [only], read, rfl⟩
      · rintro (⟨eq, -⟩ | ⟨value', x, eq, read, rfl⟩)
        · cases eq
        · obtain ⟨rfl, only⟩ := List.cons.inj eq
          exact ⟨some x, map_eq_ok_iff.2 ⟨x, read, rfl⟩, (gather_field_filled later _).2 ⟨only, rfl⟩⟩
    · rw [if_neg same]
      exact (gather_skipped (field name r absent short) text skipped (if_neg same) _ _).trans ih

theorem reads_field_iff (sound : members.Sound) :
    (field name r absent short).Reads depth members x ↔
      (members.named name = [] ∧ absent = .ok x) ∨
        ∃ value, members.named name = [value] ∧ r depth value = .ok x := by
  constructor
  · rintro ⟨draft, gathered, finished⟩
    rcases (gather_field sound draft).1 gathered with ⟨empty, rfl⟩ | ⟨value, x', one, read, rfl⟩
    · exact .inl ⟨empty, finished⟩
    · cases finished
      exact .inr ⟨value, one, read⟩
  · rintro (⟨empty, absent⟩ | ⟨value, one, read⟩)
    · exact ⟨Option.none, (gather_field sound _).2 (.inl ⟨empty, rfl⟩), absent⟩
    · exact ⟨some x, (gather_field sound _).2 (.inr ⟨value, x, one, read, rfl⟩), rfl⟩

end

end Fields

theorem Reader.record_object_eq_ok_iff {α : Type} {kind : String} {fields : Fields α} {depth : Nat}
    {members : Members} {x : α} : Reader.record kind fields depth (.object members) = .ok x ↔
      ∃ d, depth = d + 1 ∧ fields.Reads d members x := by
  simp only [Reader.record, bind_eq_ok_iff, enter_eq_ok_iff, Fields.Reads]

section

variable {depth : Nat} {members : Members} {ms : List (String × Json)} {name : String}

mutual
theorem Tree.skip_of_json : (t : Tree) → (depth : Nat) → (x : Json) → t.json depth = .ok x →
    t.skip = .ok ()
  | .null, _, _, _ | .bool _, _, _, _ | .number _, _, _, _ => rfl
  | .string q, depth, x, read => by
    obtain ⟨s, text, -⟩ := map_eq_ok_iff.1 read
    rw [Tree.skip, Quoted.fault_eq_none text]
  | .array items, depth, x, read => by
    obtain ⟨d, xs, -, inner, -⟩ := Tree.json_array_eq_ok_iff.1 read
    exact items.skip_of_json d xs inner
  | .object members, depth, x, read => by
    obtain ⟨d, ms, -, inner, -⟩ := Tree.json_object_eq_ok_iff.1 read
    exact members.skip_of_json d ms inner

theorem Items.skip_of_json : (items : Items) → (depth : Nat) → (xs : List Json) →
    items.json depth = .ok xs → items.skip = .ok ()
  | .done, _, _, _ => rfl
  | .more head rest, depth, xs, read => by
    obtain ⟨x, later, first, second, -⟩ := Items.json_more_eq_ok_iff.1 read
    rw [Items.skip, head.skip_of_json depth x first]
    exact rest.skip_of_json depth later second

theorem Members.skip_of_json : (members : Members) → (depth : Nat) → (ms : List (String × Json)) →
    members.json depth = .ok ms → members.skip = .ok ()
  | .done, _, _, _ => rfl
  | .more k value rest, depth, ms, read => by
    obtain ⟨key, x, later, name, first, second, -⟩ := Members.json_more_eq_ok_iff.1 read
    rw [Members.skip, Quoted.fault_eq_none name]
    simp only [value.skip_of_json depth x first]
    exact rest.skip_of_json depth later second
end

theorem Members.sound_of_json (read : members.json depth = .ok ms) : members.Sound := by
  induction ms generalizing members with
  | nil =>
    rw [Members.eq_done_of_json read]
    exact .done
  | cons m ms ih =>
    obtain ⟨k, value, rest, rfl, name, first, later⟩ := Members.exists_more_of_json read
    exact .more name (value.skip_of_json depth m.2 first) (ih later)

mutual
theorem tree_skip : (x : Json) → x.tree.skip = .ok ()
  | .null | .bool _ | .number _ | .string _ => rfl
  | .array items => itemTrees_skip items
  | .object members => memberTrees_skip members

theorem itemTrees_skip : (items : List Json) → (itemTrees items).skip = .ok ()
  | [] => rfl
  | x :: rest => by
    rw [itemTrees, Items.skip, tree_skip x]
    exact itemTrees_skip rest

theorem memberTrees_skip : (members : List (String × Json)) → (memberTrees members).skip = .ok ()
  | [] => rfl
  | (key, x) :: rest => by
    rw [memberTrees, Members.skip]
    simp only [quoted, tree_skip x]
    exact memberTrees_skip rest
end

theorem memberTrees_sound (ms : List (String × Json)) : (memberTrees ms).Sound := by
  induction ms with
  | nil => exact .done
  | cons m ms ih => exact .more (text_quoted m.1) (tree_skip m.2) ih

theorem named_memberTrees (ms : List (String × Json)) (name : String) :
    (memberTrees ms).named name = (ms.filter (·.1 = name)).map fun m => m.2.tree := by
  induction ms with
  | nil => rfl
  | cons m ms ih =>
    rw [memberTrees, Members.named_more (text_quoted m.1), ih]
    by_cases same : m.1 = name <;> simp [same]

theorem named_of_distinct (distinct : Table.Distinct ms) (name : String) :
    (memberTrees ms).named name = ((Table.find? name ms).map tree).toList := by
  have values := congrArg (List.map tree) (Table.filter_of_distinct distinct name)
  rw [List.map_map] at values
  rw [named_memberTrees, Option.toList_map]
  exact values

theorem named_of_json (read : members.json depth = .ok ms) (name : String) :
    List.Forall₂ (fun value m => value.json depth = .ok m.2) (members.named name)
      (ms.filter (·.1 = name)) := by
  induction ms generalizing members with
  | nil =>
    rw [Members.eq_done_of_json read]
    exact .nil
  | cons m ms ih =>
    obtain ⟨k, value, rest, rfl, text, first, later⟩ := Members.exists_more_of_json read
    rw [Members.named_more text]
    by_cases same : m.1 = name
    · rw [if_pos same, List.filter_cons_of_pos (by simpa using same)]
      exact .cons first (ih later)
    · rw [if_neg same, List.filter_cons_of_neg (by simpa using same)]
      exact ih later

theorem find?_of_named_nil (read : members.json depth = .ok ms) (none : members.named name = []) :
    Table.find? name (Table.ofEntries ms) = Option.none := by
  have values := named_of_json read name
  rw [none, List.forall₂_nil_left_iff] at values
  rw [Table.find?_ofEntries, values]
  rfl

theorem find?_of_named_singleton (read : members.json depth = .ok ms) {value : Tree}
    (one : members.named name = [value]) :
    ∃ x, value.json depth = .ok x ∧ Table.find? name (Table.ofEntries ms) = some x := by
  have values := named_of_json read name
  rw [one, List.forall₂_cons_left_iff] at values
  obtain ⟨m, rest, first, none, eq⟩ := values
  rw [List.forall₂_nil_left_iff] at none
  subst none
  exact ⟨m.2, first, by rw [Table.find?_ofEntries, eq]; rfl⟩

end

end ContractBuild.Json
