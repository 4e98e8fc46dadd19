import ContractBuild.Proofs.Remapping
import ContractBuild.Proofs.Request.Roundtrip

/-!
# Scopes of written remappings

A remapping that was read is read back from its text, with its scope, unless it holds everywhere and
its name has a colon: then the start of the name is taken for a context. Such a remapping was given
behind a colon of its own, which its text leaves out. Settings are read back if none of their
remappings is of this kind.
-/

namespace ContractBuild

open Text

namespace Remapping

/-- A part of the name looks like a context. -/
def Ambiguous (r : Remapping) : Prop := r.context = none ∧ ':' ∈ r.name.toList

variable {text : String} {r : Remapping}

theorem Spells.legible_iff (spells : Spells text r) : r.Legible ↔ ¬ r.Ambiguous := by
  constructor
  · intro legible ⟨everywhere, colon⟩
    have scope := legible.scope
    rw [everywhere] at scope
    exact scope colon
  · intro clear
    obtain ⟨context, name, path⟩ := r
    obtain ⟨left, equals, -, scopes⟩ := spells.scope
    cases scopes with
    | bare free => exact ⟨spells.path, spells.name, equals, free⟩
    | blank hidden free =>
      rw [List.mem_append, List.mem_cons, not_or, not_or] at equals
      exact ⟨spells.path, spells.name, equals.2.2, fun colon => clear ⟨rfl, colon⟩⟩
    | within visible free =>
      rw [List.mem_append, List.mem_cons, not_or, not_or] at equals
      exact ⟨spells.path, spells.name, equals.2.2, visible, free, equals.1⟩

theorem Spells.ambiguous_iff (spells : Spells text r) : r.Ambiguous ↔
    ∃ blank, ¬ Visible blank ∧ ':' ∈ r.name.toList ∧
      text = blank ++ ":" ++ r.name ++ "=" ++ r.path := by
  obtain ⟨context, name, path⟩ := r
  obtain ⟨left, -, eq, scopes⟩ := spells.scope
  constructor
  · intro ⟨everywhere, colon⟩
    cases everywhere
    cases scopes with
    | bare free => exact absurd colon free
    | @blank blank _ hidden _ =>
      refine ⟨blank, hidden, colon, String.toList_inj.1 ?_⟩
      simpa using eq
  · intro ⟨blank, hidden, colon, same⟩
    refine ⟨?_, colon⟩
    subst same
    cases scopes with
    | bare | blank => rfl
    | @within context _ visible _ =>
      have parts : blank.toList ++ ':' :: name.toList = context.toList ++ ':' :: name.toList := by
        simpa using eq
      obtain rfl := String.toList_inj.1 (List.append_cancel_right parts)
      exact absurd visible hidden

theorem parse_text_iff_of_parse (read : parse text = .ok r) :
    parse r.text = .ok r ↔ ¬ r.Ambiguous :=
  parse_text_iff.trans (parse_eq_ok_iff.1 read).legible_iff

end Remapping

theorem mapError_eq_ok_iff {ε ε' α : Type} {m : Except ε α} {f : ε → ε'} {x : α} :
    m.mapError f = .ok x ↔ m = .ok x := by
  cases m <;> simp [Except.mapError]

namespace Json.Reader

variable {α β : Type} {r : Reader α} {write : α → Json} {depth : Nat}

theorem check_eq_ok_iff {accept : α → Except String β} {t : Tree} {b : β} :
    r.check accept depth t = .ok b ↔ ∃ a, r depth t = .ok a ∧ accept a = .ok b := by
  rw [check, bind_eq_ok_iff]
  apply exists_congr
  intro a
  apply and_congr_right
  intro _
  cases accept a <;> simp

theorem forall_of_items_itemTrees {items : List α}
    (read : r.items depth (itemTrees (items.map write)) = .ok items) :
    ∀ a ∈ items, r depth (write a).tree = .ok a := by
  induction items with
  | nil => exact nofun
  | cons a items ih =>
    obtain ⟨first, head, read⟩ := bind_eq_ok_iff.1 read
    obtain ⟨later, tail, eq⟩ := bind_eq_ok_iff.1 read
    cases eq
    exact List.forall_mem_cons.2 ⟨head, ih tail⟩

theorem forall_of_list_ofList {items : List α}
    (read : r.list depth (ofList write items).tree = .ok items) :
    ∃ depth', ∀ a ∈ items, r depth' (write a).tree = .ok a := by
  obtain ⟨depth', -, read⟩ := bind_eq_ok_iff.1 read
  exact ⟨depth', forall_of_items_itemTrees read⟩

end Json.Reader

namespace Settings

open Json

theorem parse_of_remappingReader {depth : Nat} {r r' : Remapping}
    (read : remappingReader depth (Json.string r.text).tree = .ok r') :
    Remapping.parse r.text = .ok r' := by
  obtain ⟨text, same, accepted⟩ := Reader.check_eq_ok_iff.1 read
  cases (Reader.string_tree r.text).symm.trans same
  exact mapError_eq_ok_iff.1 accepted

theorem reads_remappings {members : Members} (sound : members.Sound) {depth : Nat} {s : Settings}
    (read : reader depth (.object members) = .ok s) : ∃ d,
      (Fields.defaulted "remappings" remappingReader.list []).Reads d members s.remappings := by
  obtain ⟨d, -, all⟩ := Reader.record_object_eq_ok_iff.1 read
  have evmVersion := Fields.within_map (Fields.within_field "evmVersion"
    (Reader.string.check EvmVersion.parse).option (.ok none) (some none)) Settings.mk
  have optimizer := Fields.within_seq evmVersion
    (Fields.within_field "optimizer" Optimizer.reader.option (.ok none) (some none))
  have selection := Fields.within_seq optimizer
    (Fields.within_field "outputSelection" OutputSelection.reader (.ok .empty) (some .empty))
  have remappings := Fields.within_field "remappings" remappingReader.list (.ok []) (some [])
  -- The fields are taken apart from the last to the first.
  obtain ⟨f, rs, three, last, eq⟩ :=
    (Fields.reads_seq_iff sound selection remappings (by simp)).1 all
  obtain ⟨g, _, two, -, rfl⟩ :=
    (Fields.reads_seq_iff sound optimizer (Fields.within_field _ _ _ _) (by simp)).1 three
  obtain ⟨h, _, one, -, rfl⟩ :=
    (Fields.reads_seq_iff sound evmVersion (Fields.within_field _ _ _ _) (by simp)).1 two
  obtain ⟨_, -, rfl⟩ := (Fields.reads_map_iff sound).1 one
  subst eq
  exact ⟨d, last⟩

def written (s : Settings) : List (String × Option Json) :=
  [("evmVersion", s.evmVersion.map fun v => .string v.name),
   ("optimizer", s.optimizer.map Optimizer.json),
   ("outputSelection", some s.outputSelection.json),
   ("remappings", unlessEmpty (fun r => .string r.text) s.remappings)]

theorem named_remappings (s : Settings) :
    (memberTrees (writtenMembers s.written)).named "remappings" =
      ((unlessEmpty (fun r => .string r.text) s.remappings).map tree).toList := by
  have names : (s.written.map Prod.fst).Nodup := by simp [written]
  rw [named_of_distinct (distinct_writtenMembers names),
    find?_writtenMembers names (by simp [written]; rfl)]

theorem parsed_of_reader_tree {s : Settings} {depth : Nat}
    (read : reader depth s.json.tree = .ok s) : s.Parsed := by
  have sound := memberTrees_sound (writtenMembers s.written)
  obtain ⟨d, reads⟩ := reads_remappings sound read
  have named := s.named_remappings
  rcases (Fields.reads_field_iff sound).1 reads with ⟨-, empty⟩ | ⟨value, one, each⟩
  · have none : [] = s.remappings := Except.ok.inj empty
    rw [Parsed, ← none]
    exact nofun
  · rw [one] at named
    cases some : s.remappings with
    | nil =>
      rw [some] at named
      cases named
    | cons r rs =>
      rw [some] at named each
      obtain rfl : value = (ofList (fun r => .string r.text) (r :: rs)).tree :=
        List.singleton_injective named
      obtain ⟨d', each⟩ := Reader.forall_of_list_ofList each
      intro r' mem
      rw [some] at mem
      exact parse_of_remappingReader (each r' mem)

end Settings

open Json

/-- What is read from a text is read back from the text that it is written as, exactly if it is not
ambiguous, that is, if the text did not begin with a colon of its own before a name with a colon.
The settings of a compiler are read back exactly if none of their remappings is ambiguous. -/
theorem scope_kept_iff {text : String} {r : Remapping} (read : Remapping.parse text = .ok r) :
    (Remapping.parse r.text = .ok r ↔ ¬ r.Ambiguous) ∧
    (r.Ambiguous ↔ ∃ blank, ¬ Visible blank ∧ ':' ∈ r.name.toList ∧
      text = blank ++ ":" ++ r.name ++ "=" ++ r.path) ∧
    ∀ s : Settings, s.Clean → s.json.nesting ≤ nestingLimit →
      (∀ r' ∈ s.remappings, ∃ text', Remapping.parse text' = .ok r') →
      (Settings.reader.runString s.json.text = .ok s ↔ ∀ r' ∈ s.remappings, ¬ r'.Ambiguous) := by
  refine ⟨Remapping.parse_text_iff_of_parse read, (Remapping.parse_eq_ok_iff.1 read).ambiguous_iff,
    ?_⟩
  intro s clean room given
  have parsed : s.Parsed ↔ ∀ r' ∈ s.remappings, ¬ r'.Ambiguous := by
    refine forall₂_congr fun r' mem => ?_
    obtain ⟨text', read'⟩ := given r' mem
    exact Remapping.parse_text_iff_of_parse read'
  rw [Reader.runString_text, ← parsed]
  constructor
  · exact Settings.parsed_of_reader_tree
  · intro parsed
    exact Settings.reader_tree clean parsed room

def colonName : Remapping := .everywhere "a:b" "c"

def mixedScopes : Settings :=
  { Settings.select .astOnly with remappings := [⟨some "lib/", "a:b", "c=d"⟩, colonName] }

theorem colonName_ambiguous : colonName.Ambiguous := ⟨rfl, by decide⟩

theorem scope_kept_iff_lib :
    Remapping.parse "lib/:a:b=c=d" = .ok ⟨some "lib/", "a:b", "c=d"⟩ ∧
    Remapping.parse (Remapping.text ⟨some "lib/", "a:b", "c=d"⟩) =
      .ok ⟨some "lib/", "a:b", "c=d"⟩ ∧
    Remapping.parse ":a:b=c" = .ok colonName ∧ Remapping.parse colonName.text ≠ .ok colonName ∧
    Settings.reader.runString mixedScopes.json.text ≠ .ok mixedScopes := by
  have inLib : Remapping.parse "lib/:a:b=c=d" = .ok ⟨some "lib/", "a:b", "c=d"⟩ := by decide +kernel
  have everywhere : Remapping.parse ":a:b=c" = .ok colonName := by decide +kernel
  have given : ∀ r ∈ mixedScopes.remappings, ∃ text, Remapping.parse text = .ok r := by
    intro r mem
    rcases List.mem_cons.1 mem with rfl | mem
    · exact ⟨_, inLib⟩
    · exact ⟨_, List.mem_singleton.1 mem ▸ everywhere⟩
  obtain ⟨kept, -, -⟩ := scope_kept_iff inLib
  obtain ⟨lost, -, settings⟩ := scope_kept_iff everywhere
  refine ⟨inLib, kept.2 nofun, everywhere, fun again => ?_, fun again => ?_⟩
  · exact lost.1 again colonName_ambiguous
  · have all := (settings mixedScopes nofun (by decide +kernel) given).1 again
    exact all colonName (List.mem_cons_of_mem _ List.mem_cons_self) colonName_ambiguous

/-- What was to hold everywhere is written as a remapping in the context of `a`. -/
theorem colon_taken_for_context :
    Remapping.parse ":a:b=c" = .ok colonName ∧ colonName.text = "a:b=c" ∧
    Remapping.parse colonName.text = .ok ⟨some "a", "b", "c"⟩ ∧
    (⟨some "a", "b", "c"⟩ : Remapping) ≠ colonName := by
  decide +kernel

end ContractBuild
