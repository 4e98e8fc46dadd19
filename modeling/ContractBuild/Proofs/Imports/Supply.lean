import ContractBuild.Imports

/-!
# Requests with supplied sources

A request that grows by supplied sources is always the first request with a table of sources in the
place of its own: every supplied path maps to the contents supplied for it, every other path to what
it was, and the new paths stand behind the old ones in the order in which they were supplied.
-/

namespace ContractBuild.Table

variable {κ ν : Type} [DecidableEq κ] {k : κ} {x y : ν} {entries : List (κ × ν)}

theorem put_put (k : κ) (x y : ν) (entries : List (κ × ν)) :
    put k y (put k x entries) = put k y entries := by
  induction entries with
  | nil => simp [put]
  | cons e rest ih => by_cases h : e.1 = k <;> simp [put, h, ih]

theorem put_of_find? (found : find? k entries = some x) : put k x entries = entries := by
  induction entries with
  | nil => cases found
  | cons e rest ih =>
    by_cases h : e.1 = k
    · rw [find?, if_pos h, Option.some.injEq] at found
      rw [put, if_pos h, ← h, ← found]
    · simp only [find?, if_neg h] at found
      simp only [put, if_neg h, ih found]

theorem find?_isSome_iff : (find? k entries).isSome = true ↔ k ∈ entries.map Prod.fst := by
  induction entries with
  | nil => simp [find?]
  | cons e rest ih =>
    by_cases h : e.1 = k
    · simp [find?, h]
    · rw [find?, if_neg h, ih, List.map_cons, List.mem_cons, or_iff_right (Ne.symm h)]

theorem keys_put (k : κ) (x : ν) (entries : List (κ × ν)) :
    (put k x entries).map Prod.fst =
      entries.map Prod.fst ++ [k].filter (· ∉ entries.map Prod.fst) := by
  induction entries with
  | nil => simp [put]
  | cons e rest ih =>
    by_cases h : e.1 = k
    · simp [put, h]
    · have other : [k].filter (· ∉ e.1 :: rest.map Prod.fst) =
          [k].filter (· ∉ rest.map Prod.fst) := by
        apply List.filter_congr
        intro j mem
        obtain rfl := List.mem_singleton.1 mem
        simp [Ne.symm h]
      rw [put, if_neg h, List.map_cons, ih, List.map_cons, other, List.cons_append]

end ContractBuild.Table

namespace ContractBuild.Imports

def sourceOf (contents : String) : Json := .object [("content", .string contents)]

def supply (sources : List (String × Json)) (supplied : List (String × String)) :
    List (String × Json) :=
  supplied.foldl (fun current s => Table.put s.1 (sourceOf s.2) current) sources

/-- The request with these members after some sources were supplied. -/
def requestWith (members sources : List (String × Json)) (supplied : List (String × String)) :
    Json :=
  .object (Table.put "sources" (.object (supply sources supplied)) members)

/-- The table holds what was supplied and else the original sources. -/
structure Supplies (sources : List (String × Json)) (supplied : List (String × String))
    (current : List (String × Json)) : Prop where
  given : ∀ path contents, (path, contents) ∈ supplied →
    Table.find? path current = some (sourceOf contents)
  kept : ∀ path, path ∉ supplied.map Prod.fst →
    Table.find? path current = Table.find? path sources
  keys : current.map Prod.fst = sources.map Prod.fst ++
    (supplied.map Prod.fst).filter (· ∉ sources.map Prod.fst)

variable {members sources : List (String × Json)} {supplied : List (String × String)}

theorem requestWith_nil (own : Table.find? "sources" members = some (.object sources)) :
    requestWith members sources [] = .object members := by
  simp only [requestWith, supply, List.foldl_nil, Table.put_of_find? own]

theorem addSource_requestWith (members sources : List (String × Json))
    (supplied : List (String × String)) (path contents : String) :
    addSource path contents (requestWith members sources supplied) =
      .ok (requestWith members sources (supplied ++ [(path, contents)])) := by
  simp only [addSource, requestWith, Json.get?, Table.find?_put_self, Table.put_put, supply,
    List.foldl_append, List.foldl_cons, List.foldl_nil, sourceOf]

theorem supplies_supply (sources : List (String × Json))
    (distinct : (supplied.map Prod.fst).Nodup) :
    Supplies sources supplied (supply sources supplied) := by
  induction supplied generalizing sources with
  | nil => exact ⟨fun _ _ mem => absurd mem List.not_mem_nil, fun _ _ => rfl, by simp [supply]⟩
  | cons s supplied ih =>
    obtain ⟨path, contents⟩ := s
    obtain ⟨fresh, distinct⟩ := List.nodup_cons.1 distinct
    have rest := ih (Table.put path (sourceOf contents) sources) distinct
    constructor
    · intro path' contents' mem
      rcases List.mem_cons.1 mem with eq | mem
      · cases eq
        have kept := rest.kept path fresh
        rwa [Table.find?_put_self] at kept
      · exact rest.given path' contents' mem
    · intro path' absent
      rw [List.map_cons, List.mem_cons, not_or] at absent
      have kept := rest.kept path' absent.2
      rwa [Table.find?_put_ne absent.1] at kept
    · have keys := rest.keys
      rw [Table.keys_put] at keys
      have same : (supplied.map Prod.fst).filter (· ∉ sources.map Prod.fst ++
            [path].filter (· ∉ sources.map Prod.fst)) =
          (supplied.map Prod.fst).filter (· ∉ sources.map Prod.fst) := by
        apply List.filter_congr
        intro path' mem
        have other : path' ≠ path := fun eq => fresh (eq ▸ mem)
        simp [List.mem_filter, other]
      rw [same] at keys
      simp only [supply, List.foldl_cons, List.map_cons] at keys ⊢
      rw [keys, List.append_assoc, ← List.filter_append, List.singleton_append]

end ContractBuild.Imports
