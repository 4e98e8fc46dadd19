import ContractBuild.Files
import ContractBuild.Remapping
import ContractBuild.Proofs.Outcome
import Mathlib.Data.List.Infix

/-!
# Remappings and how they are written

A text spells a remapping if it is a scope, an equals sign and a path, and the scope a name with or
without a context in front of a colon. Neither separator is escaped, so not every remapping is read
back from its text: the first equals sign and the first colon have to be those that were written.
-/

namespace ContractBuild

namespace Text

def Visible (s : String) : Prop := ∃ c ∈ s.toList, isBlank c = false

theorem all_isBlank_eq_false_iff {s : List Char} :
    s.all isBlank = false ↔ Visible (.ofList s) := by
  rw [Visible, String.toList_ofList, List.all_eq_false]
  simp only [Bool.not_eq_true]

theorem all_isBlank_eq_true_iff {s : List Char} :
    s.all isBlank = true ↔ ¬ Visible (.ofList s) := by
  rw [← all_isBlank_eq_false_iff, Bool.not_eq_false]

theorem Visible.append_right {s : String} (visible : Visible s) (t : String) : Visible (s ++ t) := by
  obtain ⟨c, mem, shown⟩ := visible
  exact ⟨c, by rw [String.toList_append]; exact List.mem_append_left _ mem, shown⟩

theorem Visible.append_left {s : String} (visible : Visible s) (t : String) : Visible (t ++ s) := by
  obtain ⟨c, mem, shown⟩ := visible
  exact ⟨c, by rw [String.toList_append]; exact List.mem_append_right _ mem, shown⟩

end Text

namespace Remapping

open Text

inductive Scopes : List Char → Option String → String → Prop
  | bare {name : String} (free : ':' ∉ name.toList) : Scopes name.toList none name
  | blank {blank name : String} (hidden : ¬ Visible blank) (free : ':' ∉ blank.toList) :
    Scopes (blank.toList ++ ':' :: name.toList) none name
  | within {context name : String} (visible : Visible context) (free : ':' ∉ context.toList) :
    Scopes (context.toList ++ ':' :: name.toList) (some context) name

theorem scope_of_free {left : List Char} (free : ':' ∉ left) : scope left = (none, left) := by
  rw [scope, splitOnce_eq_none_iff.2 free]

theorem scope_of_colon {context : List Char} (free : ':' ∉ context) (name : List Char) :
    scope (context ++ ':' :: name) =
      (if context.all isBlank then none else some context, name) := by
  rw [scope, splitOnce_eq_some_iff.2 ⟨rfl, free⟩]

theorem scopes_scope (left : List Char) :
    Scopes left ((scope left).1.map String.ofList) (.ofList (scope left).2) := by
  cases split : splitOnce ':' left with
  | none =>
    have free := splitOnce_eq_none_iff.1 split
    have bare := @Scopes.bare (.ofList left)
    rw [String.toList_ofList] at bare
    rw [scope_of_free free]
    exact bare free
  | some parts =>
    obtain ⟨rfl, free⟩ := splitOnce_eq_some_iff.1 split
    have blank := @Scopes.blank (.ofList parts.1) (.ofList parts.2)
    have within := @Scopes.within (.ofList parts.1) (.ofList parts.2)
    simp only [String.toList_ofList] at blank within
    rw [scope_of_colon free]
    cases shown : parts.1.all isBlank with
    | true => exact blank (all_isBlank_eq_true_iff.1 shown) free
    | false => exact within (all_isBlank_eq_false_iff.1 shown) free

theorem Scopes.scope_eq {left : List Char} {context : Option String} {name : String}
    (scopes : Scopes left context name) :
    scope left = (context.map String.toList, name.toList) := by
  cases scopes with
  | bare free => exact scope_of_free free
  | @blank blank _ hidden free =>
    have hidden : blank.toList.all isBlank = true := by
      rwa [all_isBlank_eq_true_iff, String.ofList_toList]
    rw [scope_of_colon free, if_pos hidden]
    rfl
  | @within context _ visible free =>
    have visible : context.toList.all isBlank = false := by
      rwa [all_isBlank_eq_false_iff, String.ofList_toList]
    rw [scope_of_colon free, visible]
    rfl

structure Spells (text : String) (r : Remapping) : Prop where
  scope : ∃ left, '=' ∉ left ∧ text.toList = left ++ '=' :: r.path.toList ∧
    Scopes left r.context r.name
  name : Visible r.name
  path : Visible r.path

theorem Spells.parse_eq {text : String} {r : Remapping} (spells : Spells text r) :
    parse text = .ok r := by
  obtain ⟨left, free, eq, scopes⟩ := spells.scope
  have name : r.name.toList.all isBlank = false := by
    rw [all_isBlank_eq_false_iff, String.ofList_toList]
    exact spells.name
  have path : r.path.toList.all isBlank = false := by
    rw [all_isBlank_eq_false_iff, String.ofList_toList]
    exact spells.path
  have context : (r.context.map String.toList).map String.ofList = r.context := by simp
  simp only [parse, splitOnce_eq_some_iff.2 ⟨eq, free⟩, scopes.scope_eq, name, path, context,
    String.ofList_toList, Bool.false_eq_true, if_false]

theorem spells_of_parse {text : String} {r : Remapping} (read : parse text = .ok r) :
    Spells text r := by
  cases split : splitOnce '=' text.toList with
  | none =>
    rw [parse, split] at read
    cases read
  | some parts =>
    obtain ⟨eq, free⟩ := splitOnce_eq_some_iff.1 split
    simp only [parse, split] at read
    cases name : (scope parts.1).2.all isBlank with
    | true => simp [name] at read
    | false =>
      cases path : parts.2.all isBlank with
      | true => simp [name, path] at read
      | false =>
        simp only [name, path, Bool.false_eq_true, if_false, Except.ok.injEq] at read
        subst read
        refine ⟨⟨parts.1, free, ?_, scopes_scope parts.1⟩, all_isBlank_eq_false_iff.1 name,
          all_isBlank_eq_false_iff.1 path⟩
        rw [String.toList_ofList, eq]

theorem parse_eq_ok_iff {text : String} {r : Remapping} : parse text = .ok r ↔ Spells text r :=
  ⟨spells_of_parse, Spells.parse_eq⟩

def front (r : Remapping) : List Char :=
  match r.context with
  | some context => context.toList ++ ':' :: r.name.toList
  | none => r.name.toList

theorem toList_text (r : Remapping) : r.text.toList = r.front ++ '=' :: r.path.toList := by
  cases context : r.context <;> simp [text, front, context]

theorem equals_not_mem_front_iff {r : Remapping} : '=' ∉ r.front ↔
    '=' ∉ r.name.toList ∧ ∀ context ∈ r.context, '=' ∉ context.toList := by
  cases context : r.context with
  | none => simp [front, context]
  | some context => simp [front, context, and_comm]

theorem scopes_bare_iff {name : String} : Scopes name.toList none name ↔ ':' ∉ name.toList := by
  refine ⟨fun scopes => ?_, .bare⟩
  generalize eq : name.toList = left at scopes
  cases scopes with
  | bare free => exact eq ▸ free
  | blank hidden free =>
    have length := congrArg List.length eq
    rw [List.length_append, List.length_cons] at length
    omega

theorem scopes_within_iff {context name : String} :
    Scopes (context.toList ++ ':' :: name.toList) (some context) name ↔
      Visible context ∧ ':' ∉ context.toList := by
  refine ⟨fun scopes => ?_, fun ⟨visible, free⟩ => .within visible free⟩
  generalize context.toList ++ ':' :: name.toList = left at scopes
  cases scopes with
  | within visible free => exact ⟨visible, free⟩

/-- The separators of the text are found where they were written, and no part is white space. -/
structure Legible (r : Remapping) : Prop where
  path : Visible r.path
  name : Visible r.name
  equals : '=' ∉ r.name.toList
  scope : match r.context with
    | none => ':' ∉ r.name.toList
    | some context => Visible context ∧ ':' ∉ context.toList ∧ '=' ∉ context.toList

theorem spells_text_iff {r : Remapping} : Spells r.text r ↔ r.Legible := by
  have split : (∃ left, '=' ∉ left ∧ r.text.toList = left ++ '=' :: r.path.toList ∧
      Scopes left r.context r.name) ↔ '=' ∉ r.front ∧ Scopes r.front r.context r.name := by
    constructor
    · intro ⟨left, free, eq, scopes⟩
      rw [toList_text, List.append_left_inj] at eq
      subst eq
      exact ⟨free, scopes⟩
    · intro ⟨free, scopes⟩
      exact ⟨r.front, free, r.toList_text, scopes⟩
  have scope : Scopes r.front r.context r.name ∧ (∀ context ∈ r.context, '=' ∉ context.toList) ↔
      match r.context with
      | none => ':' ∉ r.name.toList
      | some context => Visible context ∧ ':' ∉ context.toList ∧ '=' ∉ context.toList := by
    cases context : r.context with
    | none => simp [front, context, scopes_bare_iff]
    | some context => simp [front, context, scopes_within_iff, and_assoc]
  constructor
  · intro spells
    obtain ⟨free, scopes⟩ := split.1 spells.scope
    obtain ⟨equals, within⟩ := equals_not_mem_front_iff.1 free
    exact ⟨spells.path, spells.name, equals, scope.1 ⟨scopes, within⟩⟩
  · intro legible
    obtain ⟨scopes, within⟩ := scope.2 legible.scope
    have free := equals_not_mem_front_iff.2 ⟨legible.equals, within⟩
    exact ⟨split.2 ⟨free, scopes⟩, legible.name, legible.path⟩

theorem parse_text_iff {r : Remapping} : parse r.text = .ok r ↔ r.Legible :=
  parse_eq_ok_iff.trans spells_text_iff

theorem visible_slash : Visible "/" := ⟨'/', by decide, by decide⟩

theorem legible_installedPackage_iff {package : String} : (installedPackage package).Legible ↔
    '=' ∉ package.toList ∧ ':' ∉ package.toList := by
  have name : (installedPackage package).name.toList = package.toList ++ ['/'] :=
    String.toList_append
  constructor
  · intro legible
    have equals := legible.equals
    have colon : ':' ∉ (installedPackage package).name.toList := legible.scope
    rw [name, List.mem_append, not_or] at equals colon
    exact ⟨equals.1, colon.1⟩
  · intro ⟨equals, colon⟩
    refine ⟨?_, visible_slash.append_left _, ?_, ?_⟩
    · exact ((visible_slash.append_left _).append_right package).append_right _
    · rw [name]
      simp [equals]
    · change ':' ∉ (installedPackage package).name.toList
      rw [name]
      simp [colon]

theorem exists_package_of_remappingsOf {manifest : Json} {remappings : List Remapping}
    (read : Manifest.remappingsOf manifest = .ok remappings) :
    ∀ r ∈ remappings, ∃ package, r = installedPackage package := by
  unfold Manifest.remappingsOf at read
  split at read <;> cases read
  · exact nofun
  · exact nofun
  · intro r mem
    obtain ⟨dependency, -, rfl⟩ := List.mem_map.1 mem
    exact ⟨dependency.1, rfl⟩

theorem exists_package_of_manifest {files : FileTree} {root : String} {remappings : List Remapping}
    (read : Manifest.remappings files root = .ok remappings) :
    ∀ r ∈ remappings, ∃ package, r = installedPackage package := by
  simp only [Manifest.remappings] at read
  split at read
  · obtain ⟨text, -, read⟩ := bind_eq_ok_iff.1 read
    obtain ⟨manifest, -, read⟩ := bind_eq_ok_iff.1 read
    exact exists_package_of_remappingsOf read
  · cases read
    exact nofun

/-- A remapping is read back from its text exactly if its separators are found where they were
written. The remapping of a package is unless the name of the package has a separator, and the
remappings of a manifest are those of packages. -/
theorem read_back_iff :
    (∀ r : Remapping, parse r.text = .ok r ↔ r.Legible) ∧
    (∀ package, parse (installedPackage package).text = .ok (installedPackage package) ↔
      '=' ∉ package.toList ∧ ':' ∉ package.toList) ∧
    ∀ files root remappings, Manifest.remappings files root = .ok remappings →
      ∀ r ∈ remappings, ∃ package, r = installedPackage package ∧
        (parse r.text = .ok r ↔ '=' ∉ package.toList ∧ ':' ∉ package.toList) := by
  have packages : ∀ package,
      parse (installedPackage package).text = .ok (installedPackage package) ↔
        '=' ∉ package.toList ∧ ':' ∉ package.toList :=
    fun package => parse_text_iff.trans legible_installedPackage_iff
  refine ⟨fun r => parse_text_iff, packages, fun files root remappings read r mem => ?_⟩
  obtain ⟨package, rfl⟩ := exists_package_of_manifest read r mem
  exact ⟨package, rfl, packages package⟩

def twoPackages : FileTree :=
  .ofList [([Manifest.fileName], .file (Utf8.encode
    "\x7b\"dependencies\":\x7b\"owned\":\"^1.0.0\",\"a=b\":\"1.2.0\"\x7d\x7d"))]

theorem read_back_iff_twoPackages :
    Manifest.remappings twoPackages "" = .ok [installedPackage "owned", installedPackage "a=b"] ∧
    (∀ r ∈ [installedPackage "owned", installedPackage "a=b"], ∃ package,
      r = installedPackage package ∧
        (parse r.text = .ok r ↔ '=' ∉ package.toList ∧ ':' ∉ package.toList)) ∧
    parse (installedPackage "owned").text = .ok (installedPackage "owned") ∧
    parse (installedPackage "a=b").text ≠ .ok (installedPackage "a=b") := by
  have read : Manifest.remappings twoPackages "" =
      .ok [installedPackage "owned", installedPackage "a=b"] := by decide +kernel
  obtain ⟨-, packages, manifest⟩ := read_back_iff
  refine ⟨read, manifest twoPackages "" _ read, ?_, ?_⟩
  · exact (packages "owned").2 (by decide)
  · exact fun again => absurd ((packages "a=b").1 again) (by decide)

end Remapping
end ContractBuild
