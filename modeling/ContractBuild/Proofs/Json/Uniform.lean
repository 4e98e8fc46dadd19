import ContractBuild.Json.Record
import ContractBuild.Proofs.Json.Spelling

/-!
# Readers do not see how a value is spelled

Two trees that spell one value are read with one outcome: the same result, or the same problem. The
combinators that readers are made with keep this property, so a reader has it by its construction.
-/

namespace ContractBuild.Json

theorem Quoted.text_ne_ok {q : Quoted} {f : Fault} (fault : q.fault = some f) (s : String) :
    q.text ≠ .ok s := by
  have broken : ∀ pieces cs, joinPieces (some f) pieces ≠ .ok cs := by
    intro pieces
    fun_induction joinPieces (some f) pieces with
    | case1 none => cases none
    | case3 _ _ ih | case4 _ _ ih | case6 _ _ _ _ _ _ ih | case10 _ _ _ _ ih =>
      intro cs joined
      obtain ⟨later, joined, -⟩ := map_eq_ok_iff.1 joined
      exact ih later joined
    | case2 | case5 | case7 | case8 | case9 => exact fun _ => nofun
  intro text
  obtain ⟨cs, joined, -⟩ := map_eq_ok_iff.1 text
  rw [fault] at joined
  exact broken _ cs joined

theorem Quoted.fault_eq_none {q : Quoted} {s : String} (text : q.text = .ok s) : q.fault = none := by
  cases fault : q.fault with
  | none => rfl
  | some f => exact absurd text (Quoted.text_ne_ok fault s)

mutual
theorem Tree.Spells.skip_eq : {t : Tree} → {x : Json} → t.Spells x → t.skip = .ok ()
  | _, _, .null | _, _, .bool _ | _, _, .number _ => rfl
  | _, _, .string text => by rw [Tree.skip, Quoted.fault_eq_none text]
  | _, _, .array spelled => spelled.skip_eq
  | _, _, .object spelled => spelled.skip_eq

theorem Items.Spells.skip_eq : {items : Items} → {xs : List Json} → items.Spells xs →
    items.skip = .ok ()
  | _, _, .done => rfl
  | _, _, .more first later => by
    rw [Items.skip, first.skip_eq]
    exact later.skip_eq

theorem Members.Spells.skip_eq : {members : Members} → {ms : List (String × Json)} →
    members.Spells ms → members.skip = .ok ()
  | _, _, .done => rfl
  | _, _, .more name first later => by
    rw [Members.skip, Quoted.fault_eq_none name]
    simp only [first.skip_eq]
    exact later.skip_eq
end

namespace Reader

variable {α β κ : Type}

/-- Spellings of one value are read alike. -/
def Uniform (r : Reader α) : Prop :=
  ∀ depth t t' x, t.Spells x → t'.Spells x → r depth t = r depth t'

mutual
theorem json_spelled : {t t' : Tree} → {x : Json} → t.Spells x → t'.Spells x → (depth : Nat) →
    t.json depth = t'.json depth
  | _, _, _, .null, .null, _ => rfl
  | _, _, _, .bool _, .bool _, _ => rfl
  | _, _, _, .number value, .number value', _ => by rw [Tree.json, Tree.json, value, value']
  | _, _, _, .string text, .string text', _ => by rw [Tree.json, Tree.json, text, text']
  | _, _, _, .array spelled, .array spelled', depth => by
    simp only [Tree.json, itemsJson_spelled spelled spelled']
  | _, _, _, .object spelled, .object spelled', depth => by
    simp only [Tree.json, membersJson_spelled spelled spelled']

theorem itemsJson_spelled : {items items' : Items} → {xs : List Json} → items.Spells xs →
    items'.Spells xs → (depth : Nat) → items.json depth = items'.json depth
  | _, _, _, .done, .done, _ => rfl
  | _, _, _, .more first later, .more first' later', depth => by
    rw [Items.json, Items.json, json_spelled first first', itemsJson_spelled later later']

theorem membersJson_spelled : {members members' : Members} → {ms : List (String × Json)} →
    members.Spells ms → members'.Spells ms → (depth : Nat) →
    members.json depth = members'.json depth
  | _, _, _, .done, .done, _ => rfl
  | _, _, _, .more name first later, .more name' first' later', depth => by
    rw [Members.json, Members.json, name, name', json_spelled first first',
      membersJson_spelled later later']
end

theorem json_uniform : json.Uniform :=
  fun depth _ _ _ spelled spelled' => json_spelled spelled spelled' depth

theorem string_uniform : string.Uniform := by
  intro depth t t' x spelled spelled'
  cases spelled <;> cases spelled' <;>
    simp_all [string, Tree.mismatch]

theorem whole_uniform {expected : String} (accept : Int → Option α) :
    (whole expected accept).Uniform := by
  intro depth t t' x spelled spelled'
  cases spelled <;> cases spelled' <;>
    simp_all [whole, Tree.mismatch]

variable {r : Reader α}

theorem Uniform.option (uniform : r.Uniform) : r.option.Uniform := by
  intro depth t t' x spelled spelled'
  have same := uniform depth t t' x spelled spelled'
  cases spelled <;> cases spelled' <;> simp only [Reader.option, same]

theorem Uniform.getD {r : Reader (Option α)} (uniform : r.Uniform) (default : α) :
    (r.getD default).Uniform := by
  intro depth t t' x spelled spelled'
  rw [Reader.getD, Reader.getD, uniform depth t t' x spelled spelled']

theorem Uniform.check (uniform : r.Uniform) (accept : α → Except String β) :
    (r.check accept).Uniform := by
  intro depth t t' x spelled spelled'
  rw [Reader.check, Reader.check, uniform depth t t' x spelled spelled']

theorem Uniform.items (uniform : r.Uniform) (depth : Nat) {items items' : Items} {xs : List Json}
    (spelled : items.Spells xs) (spelled' : items'.Spells xs) :
    r.items depth items = r.items depth items' := by
  induction xs generalizing items items' with
  | nil =>
    cases spelled
    cases spelled'
    rfl
  | cons x xs ih =>
    cases spelled with | more first later =>
    cases spelled' with | more first' later' =>
    rw [Reader.items, Reader.items, uniform depth _ _ x first first', ih later later']

theorem Uniform.list (uniform : r.Uniform) : r.list.Uniform := by
  intro depth t t' x spelled spelled'
  cases spelled with
  | array items =>
    cases spelled' with | array items' =>
    simp only [Reader.list, uniform.items _ items items']
  | null | bool | number | string | object =>
    cases spelled'
    simp_all [Reader.list, Tree.mismatch]

theorem Uniform.entries (uniform : r.Uniform) (depth : Nat) {members members' : Members}
    {ms : List (String × Json)} (spelled : members.Spells ms) (spelled' : members'.Spells ms) :
    entries Quoted.text r depth members = entries Quoted.text r depth members' := by
  induction ms generalizing members members' with
  | nil =>
    cases spelled
    cases spelled'
    rfl
  | cons m ms ih =>
    cases spelled with | more name first later =>
    cases spelled' with | more name' first' later' =>
    rw [Reader.entries, Reader.entries, name, name', uniform depth _ _ _ first first',
      ih later later']

theorem Uniform.map (uniform : r.Uniform) : r.map.Uniform := by
  intro depth t t' x spelled spelled'
  cases spelled with
  | object members =>
    cases spelled' with | object members' =>
    simp only [Reader.map, Reader.mapOf, uniform.entries _ members members']
  | null | bool | number | string | array =>
    cases spelled'
    simp_all [Reader.map, Reader.mapOf, Tree.mismatch]

theorem name_uniform (names : List (String × α)) : (name names).Uniform := by
  intro depth t t' x spelled spelled'
  cases spelled with
  | object members =>
    cases spelled' with | object members' =>
    cases members with
    | done =>
      cases members'
      rfl
    | more key value rest =>
      cases members' with | more key' value' rest' =>
      cases rest <;> cases rest' <;> cases value <;> cases value' <;>
        simp_all [Reader.name, Tree.mismatch]
  | null | bool | number | string | array =>
    cases spelled'
    simp_all [Reader.name]

end Reader

namespace Fields

variable {α β : Type}

/-- The same problem, or the same value and spellings of the same items behind it. -/
inductive Alike : Except Problem (α × Items) → Except Problem (α × Items) → Prop
  | error (p : Problem) : Alike (.error p) (.error p)
  | ok (a : α) {rest rest' : Items} {xs : List Json} (spelled : rest.Spells xs)
    (spelled' : rest'.Spells xs) : Alike (.ok (a, rest)) (.ok (a, rest'))

theorem Alike.bind {found found' : Except Problem (α × Items)}
    {next : α × Items → Except Problem (β × Items)} (alike : Alike found found')
    (later : ∀ a rest rest' xs, rest.Spells xs → rest'.Spells xs →
      Alike (next (a, rest)) (next (a, rest'))) :
    Alike (found >>= next) (found' >>= next) := by
  cases alike with
  | error p => exact .error p
  | ok a spelled spelled' => exact later a _ _ _ spelled spelled'

structure Uniform (fields : Fields α) : Prop where
  take : ∀ name step, fields.take name = some step → ∀ depth t t' x draft, t.Spells x →
    t'.Spells x → step depth t draft = step depth t' draft
  position : ∀ lack depth items items' xs, items.Spells xs → items'.Spells xs →
    Alike (fields.position lack depth items) (fields.position lack depth items')

theorem Uniform.map {fields : Fields α} (uniform : fields.Uniform) (f : α → β) :
    (f <$> fields).Uniform where
  take := uniform.take
  position lack depth items items' xs spelled spelled' := by
    have alike := uniform.position lack depth items items' xs spelled spelled'
    change Alike ((fields.position lack depth items).map _) ((fields.position lack depth items').map _)
    generalize fields.position lack depth items = found,
      fields.position lack depth items' = found' at alike
    cases alike with
    | error p => exact .error p
    | ok a rest rest' => exact .ok (f a) rest rest'

theorem take_seq_left {left : Fields (α → β)} {right : Fields α} {name : String}
    {step : Nat → Tree → left.Draft → Except Problem left.Draft}
    (taken : left.take name = some step) : (left <*> right).take name =
      some fun depth t draft => (step depth t draft.1).map (·, draft.2) := by
  change (seq left right).take name = _
  simp only [seq, taken]
  rfl

theorem take_seq_right {left : Fields (α → β)} {right : Fields α} {name : String}
    (passed : left.take name = none) : (left <*> right).take name =
      (right.take name).map fun step depth t draft =>
        (step depth t draft.2).map (draft.1, ·) := by
  change (seq left right).take name = _
  simp only [seq, passed]
  rfl

theorem take_others (r : Reader α) (name : String) : (others r).take name =
    some fun depth t draft => (r depth t).map (draft.insert name) := rfl

theorem Uniform.seq {left : Fields (α → β)} {right : Fields α} (uniform : left.Uniform)
    (uniform' : right.Uniform) : (left <*> right).Uniform where
  take name step taken := by
    intro depth t t' x draft spelled spelled'
    cases first : left.take name with
    | some one =>
      rw [take_seq_left first] at taken
      cases taken
      exact congrArg (Except.map (·, draft.2))
        (uniform.take name one first depth t t' x draft.1 spelled spelled')
    | none =>
      rw [take_seq_right first] at taken
      obtain ⟨one, second, rfl⟩ := Option.map_eq_some_iff.1 taken
      exact congrArg (Except.map (draft.1, ·))
        (uniform'.take name one second depth t t' x draft.2 spelled spelled')
  position lack depth items items' xs spelled spelled' := by
    refine (uniform.position lack depth items items' xs spelled spelled').bind ?_
    intro f rest rest' ys spelled spelled'
    refine (uniform'.position _ depth rest rest' ys spelled spelled').bind ?_
    exact fun a _ _ _ last last' => .ok (f a) last last'

theorem field_uniform (name : String) {r : Reader α} (uniform : r.Uniform)
    (absent : Except Problem α) (short : Option α) : (field name r absent short).Uniform where
  take given step taken := by
    intro depth t t' x draft spelled spelled'
    simp only [field] at taken
    split at taken <;> cases taken
    cases draft with
    | some _ => rfl
    | none => exact congrArg (Except.map some) (uniform depth t t' x spelled spelled')
  position lack depth items items' xs spelled spelled' := by
    cases spelled with
    | done =>
      cases spelled'
      cases short with
      | none => exact .error (lack 0)
      | some a => exact .ok a .done .done
    | more first later =>
      cases spelled' with | more first' later' =>
      simp only [field, uniform depth _ _ _ first first']
      cases r depth _ with
      | error p => exact .error p
      | ok a => exact .ok a later later'

theorem Uniform.gather {fields : Fields α} (uniform : fields.Uniform) (depth : Nat)
    {members members' : Members} {ms : List (String × Json)} (spelled : members.Spells ms)
    (spelled' : members'.Spells ms) (draft : fields.Draft) :
    fields.gather depth draft members = fields.gather depth draft members' := by
  induction ms generalizing members members' draft with
  | nil =>
    cases spelled
    cases spelled'
    rfl
  | cons m ms ih =>
    cases spelled with | more name first later =>
    cases spelled' with | more name' first' later' =>
    simp only [Fields.gather, name, name', first.skip_eq, first'.skip_eq, bind, Except.bind]
    cases taken : fields.take _ with
    | none => exact ih later later' draft
    | some step =>
      simp only [uniform.take _ step taken depth _ _ _ draft first first']
      cases step depth _ draft with
      | error p => rfl
      | ok next => exact ih later later' next

end Fields

theorem Reader.surplus_eq_ok {items : Items} (last : surplus items = .ok ()) : items = .done := by
  unfold surplus at last
  split at last
  · rfl
  · cases last
  · cases last
  · cases last

theorem Items.Spells.surplus_eq {items items' : Items} {xs : List Json} (spelled : items.Spells xs)
    (spelled' : items'.Spells xs) : Reader.surplus items = Reader.surplus items' := by
  cases spelled with
  | done =>
    cases spelled'
    rfl
  | more first later =>
    cases spelled' with | more first' later' =>
    cases first <;> cases first' <;> rfl

theorem Fields.Alike.surplus {α : Type} {found found' : Except Problem (α × Items)}
    (alike : Alike found found') :
    (do let (a, rest) ← found; Reader.surplus rest; return a) =
      (do let (a, rest) ← found'; Reader.surplus rest; return a) := by
  cases alike with
  | error p => rfl
  | ok a rest rest' => exact congrArg (· >>= fun _ => Except.ok a) (rest.surplus_eq rest')

theorem Fields.Uniform.record {α : Type} {kind : String} {fields : Fields α}
    (uniform : fields.Uniform) : (Reader.record kind fields).Uniform := by
  intro depth t t' x spelled spelled'
  cases spelled with
  | object members =>
    cases spelled' with | object members' =>
    simp only [Reader.record, uniform.gather _ members members']
  | array items =>
    cases spelled' with | array items' =>
    simp only [Reader.record]
    cases enter depth with
    | error p => rfl
    | ok depth =>
      exact (uniform.position _ depth _ _ _ items items').surplus
  | null | bool | number | string =>
    cases spelled'
    simp_all [Reader.record, Tree.mismatch]

section

variable {α : Type} {r : Reader α} {name : String}

theorem Reader.Uniform.required (uniform : r.Uniform) : (Fields.required name r).Uniform :=
  Fields.field_uniform name uniform _ _

theorem Reader.Uniform.defaulted (uniform : r.Uniform) {default : α} :
    (Fields.defaulted name r default).Uniform :=
  Fields.field_uniform name uniform _ _

theorem Reader.Uniform.optional (uniform : r.Uniform) : (Fields.optional name r).Uniform :=
  uniform.option.defaulted

end

theorem ofString?_eq_ok_iff {text : String} {x : Json} : ofString? text = .ok x ↔
    (Tree.ofText text.toList).1.json nestingLimit = .ok x ∧
      (skipBlank (Tree.ofText text.toList).2).isEmpty = true := by
  simp only [ofString?, Reader.runString, Reader.run, bind_eq_ok_iff]
  constructor
  · rintro ⟨y, read, last⟩
    split at last <;> cases last
    exact ⟨read, ‹_›⟩
  · rintro ⟨read, last⟩
    exact ⟨x, read, if_pos last⟩

theorem runString_of_parsed {α : Type} (r : Reader α) {text : String} {x : Json}
    (parsed : ofString? text = .ok x) :
    r.runString text = r nestingLimit (Tree.ofText text.toList).1 := by
  have last := (ofString?_eq_ok_iff.1 parsed).2
  simp only [Reader.runString, Reader.run, last, if_true]
  cases r nestingLimit (Tree.ofText text.toList).1 <;> rfl

theorem Reader.Uniform.runString_text {α : Type} {r : Reader α} (uniform : r.Uniform)
    {text : String} {x : Json} (parsed : ofString? text = .ok x)
    (distinct : (Tree.ofText text.toList).1.DistinctKeys) (numbers : x.Numbers Number.Reprints) :
    r.runString x.text = r.runString text := by
  have read := (ofString?_eq_ok_iff.1 parsed).1
  rw [Reader.runString_text, runString_of_parsed r parsed]
  exact uniform _ _ _ x (tree_spells x numbers) (Tree.spells_of_json _ _ x distinct read)

end ContractBuild.Json
