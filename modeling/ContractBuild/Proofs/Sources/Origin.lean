import ContractBuild.Sources.Canonical
import ContractBuild.Proofs.SortedMap

/-!
# Where a canonical source comes from

Texts and paths are filled side by side. A canonical name stands for the greatest of the paths that
have it, and for the text of just this path. If no two paths have one canonical name, going back
gives the path that was canonicalized.
-/

namespace ContractBuild

/-- The greatest of the paths with one canonical name. -/
structure IsOriginal (sources : SourceSet) (name path : String) : Prop where
  given : sources.contains path = true
  named : canonicalize path = name
  greatest : ∀ other, sources.contains other = true → canonicalize other = name →
    compare other path ≠ .gt

namespace CanonicalSources
open Std

variable {sources : SourceSet} {name path text : String}

theorem foldl_add (entries : List (String × String)) (m : CanonicalSources) :
    entries.foldl (fun canonical e => canonical.add e.1 e.2) m =
      ⟨entries.foldl (fun texts e => texts.insert (canonicalize e.1) e.2) m.texts,
        entries.foldl (fun paths e => paths.insert (canonicalize e.1) e.1) m.paths⟩ := by
  induction entries generalizing m with
  | nil => rfl
  | cons e entries ih => exact ih (m.add e.1 e.2)

theorem texts_ofSources : (ofSources sources).texts =
    .ofList (sources.entries.map fun e => (canonicalize e.1, e.2)) := by
  rw [ofSources, foldl_add, SortedMap.ofList, List.foldl_map]
  rfl

theorem paths_ofSources : (ofSources sources).paths =
    .ofList (sources.entries.map fun e => (canonicalize e.1, e.1)) := by
  rw [ofSources, foldl_add, SortedMap.ofList, List.foldl_map]
  rfl

theorem isOriginal_iff_of_find? (found : sources.find? path = some text) :
    IsOriginal sources name path ↔ canonicalize path = name ∧
      ∀ e ∈ sources.entries, canonicalize e.1 = name →
        e = (path, text) ∨ compare e.1 path = .lt := by
  constructor
  · rintro ⟨-, named, greatest⟩
    refine ⟨named, ?_⟩
    rintro ⟨other, text'⟩ mem same
    have found' := (SortedMap.find?_eq_some_iff _).2 mem
    cases order : compare other path with
    | lt => exact .inr rfl
    | gt => exact absurd order (greatest other (by simp [SortedMap.contains, found']) same)
    | eq =>
      obtain rfl := Std.compare_eq_iff_eq.1 order
      rw [found] at found'
      exact .inl (by rw [Option.some.inj found'])
  · rintro ⟨named, last⟩
    refine ⟨by simp [SortedMap.contains, found], named, fun other given same gt => ?_⟩
    obtain ⟨text', found'⟩ := Option.isSome_iff_exists.1 given
    rcases last (other, text') ((SortedMap.find?_eq_some_iff _).1 found') same with eq | lt
    · rw [(Prod.mk.inj eq).1, compare_self] at gt
      cases gt
    · rw [gt] at lt
      cases lt

theorem find?_ofList_canonicalize {value : String × String → String} {x : String} :
    (SortedMap.ofList (sources.entries.map fun e => (canonicalize e.1, value e))).find? name =
        some x ↔
      ∃ path text, IsOriginal sources name path ∧ sources.find? path = some text ∧
        value (path, text) = x := by
  rw [SortedMap.find?_ofList_map_eq_some_iff sources.increasing
    fun _ _ lt => OrientedCmp.not_lt_of_lt lt]
  constructor
  · rintro ⟨⟨path, text⟩, mem, named, eq, last⟩
    have found := (SortedMap.find?_eq_some_iff _).2 mem
    exact ⟨path, text, (isOriginal_iff_of_find? found).2 ⟨named, last⟩, found, eq⟩
  · rintro ⟨path, text, original, found, eq⟩
    obtain ⟨named, last⟩ := (isOriginal_iff_of_find? found).1 original
    exact ⟨(path, text), (SortedMap.find?_eq_some_iff _).1 found, named, eq, last⟩

theorem find?_paths_eq_some_iff : (ofSources sources).paths.find? name = some path ↔
    IsOriginal sources name path := by
  rw [paths_ofSources, find?_ofList_canonicalize]
  constructor
  · rintro ⟨path, text, original, -, rfl⟩
    exact original
  · intro original
    obtain ⟨text, found⟩ := Option.isSome_iff_exists.1 original.given
    exact ⟨path, text, original, found, rfl⟩

/-- The two maps stay in step: the text of a name is that of the path it goes back to. -/
theorem find?_texts_eq_bind : (ofSources sources).texts.find? name =
    ((ofSources sources).paths.find? name).bind sources.find? := by
  ext text
  rw [texts_ofSources, find?_ofList_canonicalize, Option.bind_eq_some_iff]
  simp only [find?_paths_eq_some_iff]
  constructor
  · rintro ⟨path, text, original, found, rfl⟩
    exact ⟨path, original, found⟩
  · rintro ⟨path, original, found⟩
    exact ⟨path, text, original, found, rfl⟩

theorem path?_ofSources_eq_some_iff : (ofSources sources).path? name = some path ↔
    IsOriginal sources name path :=
  find?_paths_eq_some_iff

theorem text?_of_isOriginal (original : IsOriginal sources name path) :
    (ofSources sources).text? name = sources.find? path := by
  rw [text?, find?_texts_eq_bind, find?_paths_eq_some_iff.2 original]
  rfl

theorem contains_paths_iff : (ofSources sources).paths.contains name = true ↔
    ∃ path, sources.contains path = true ∧ canonicalize path = name := by
  rw [paths_ofSources, SortedMap.contains_ofList_iff, List.map_map, List.mem_map]
  constructor
  · rintro ⟨⟨path, text⟩, mem, rfl⟩
    exact ⟨path, by simp [SortedMap.contains, (SortedMap.find?_eq_some_iff _).2 mem], rfl⟩
  · rintro ⟨path, given, rfl⟩
    obtain ⟨text, found⟩ := Option.isSome_iff_exists.1 given
    exact ⟨(path, text), (SortedMap.find?_eq_some_iff _).1 found, rfl⟩

theorem contains_texts_iff : (ofSources sources).texts.contains name = true ↔
    ∃ path, sources.contains path = true ∧ canonicalize path = name := by
  rw [← contains_paths_iff, paths_ofSources, texts_ofSources, SortedMap.contains_ofList_iff,
    SortedMap.contains_ofList_iff, List.map_map, List.map_map]
  rfl

theorem text?_eq_none_iff : (ofSources sources).text? name = none ↔
    ∀ path, sources.contains path = true → canonicalize path ≠ name := by
  rw [text?, ← Option.not_isSome_iff_eq_none]
  exact (not_congr contains_texts_iff).trans (by simp)

theorem path?_eq_none_iff : (ofSources sources).path? name = none ↔
    ∀ path, sources.contains path = true → canonicalize path ≠ name := by
  rw [path?, ← Option.not_isSome_iff_eq_none]
  exact (not_congr contains_paths_iff).trans (by simp)

theorem isEmpty_ofSources_iff : (ofSources sources).isEmpty = true ↔ sources = .empty := by
  rw [isEmpty, SortedMap.isEmpty_iff, SortedMap.eq_empty_iff]
  constructor
  · intro none path
    by_contra given
    rw [Bool.not_eq_false] at given
    have named := contains_texts_iff.2 ⟨path, given, rfl⟩
    rw [none] at named
    cases named
  · intro none name
    by_contra named
    rw [Bool.not_eq_false, contains_texts_iff] at named
    obtain ⟨path, given, -⟩ := named
    rw [none] at given
    cases given

theorem isOriginal_of_unique (given : sources.contains path = true)
    (unique : ∀ other, sources.contains other = true → canonicalize other = canonicalize path →
      other = path) : IsOriginal sources (canonicalize path) path where
  given := given
  named := rfl
  greatest other given' same := by
    rw [unique other given' same, compare_self]
    nofun

end CanonicalSources
end ContractBuild
