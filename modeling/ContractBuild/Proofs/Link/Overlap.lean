import ContractBuild.Proofs.Link.Shift

/-!
# Windows that overlap

The placeholder of an ordinary name has the length of an address, so a patch writes over its own
window and leaves every other character where it is. Linking can then be followed at one character:
all patches that reach it write to it in turn, and the last one decides. What is written does not
depend on what was there before, so linking twice is linking once.
-/

namespace ContractBuild.Link

structure Reference.IsOrdinary (r : Reference) : Prop where
  ascii : ∀ c ∈ r.library.toList, c.toNat < 128
  short : r.library.length ≤ 38

instance : DecidablePred Reference.IsOrdinary := fun r =>
  decidable_of_iff ((r.library.toList.all fun c => c.toNat < 128) = true ∧ r.library.length ≤ 38)
    ⟨fun h => ⟨by simpa using h.1, h.2⟩, fun h => ⟨by simpa using h.ascii, h.short⟩⟩

def Reference.Fits (r : Reference) (length : Nat) : Prop := r.position + addressLength ≤ length

instance (length : Nat) : DecidablePred (Reference.Fits · length) := fun r =>
  inferInstanceAs (Decidable (r.position + addressLength ≤ length))

def Reference.mark? (r : Reference) (i : Nat) : Option Char :=
  if r.covers i then (placeholder r.library.toList)[i - r.position]? else none

/-- What stands at `i` instead of `c` once all references are written. -/
def overwrite (found : List Reference) (i : Nat) (c : Char) : Char :=
  found.foldl (fun c r => (r.mark? i).getD c) c

variable {found earlier later : List Reference} {r : Reference} {code : List Char} {c : Char}
  {i : Nat}

theorem Reference.IsOrdinary.length_placeholder (ordinary : r.IsOrdinary) :
    (placeholder r.library.toList).length = addressLength := by
  have short := ordinary.short
  rw [← String.length_toList] at short
  simp only [placeholder, List.length_append, List.length_cons, List.length_replicate,
    addressLength]
  omega

theorem Reference.IsOrdinary.ascii_placeholder (ordinary : r.IsOrdinary) :
    ∀ c ∈ placeholder r.library.toList, c.toNat < 128 := by
  intro c mem
  simp only [placeholder, List.mem_append, List.mem_cons, List.mem_replicate] at mem
  rcases mem with (rfl | rfl | mem) | ⟨-, rfl⟩
  · decide
  · decide
  · exact ordinary.ascii c mem
  · decide

theorem Reference.mark?_of_uncovered (free : r.covers i = false) : r.mark? i = none := by
  rw [mark?, if_neg (by simp [free])]

theorem Reference.mark?_of_covered (covered : r.covers i = true) :
    r.mark? i = (placeholder r.library.toList)[i - r.position]? := by
  rw [mark?, if_pos covered]

theorem Reference.mark?_isSome (covered : r.covers i = true) : (r.mark? i).isSome = true := by
  have inside := Reference.covers_iff.1 covered
  have long : addressLength ≤ (placeholder r.library.toList).length := by
    simp only [placeholder, List.length_append, List.length_replicate]
    omega
  rw [mark?_of_covered covered, isSome_getElem?]
  omega

theorem Reference.IsOrdinary.ascii_of_mark? (ordinary : r.IsOrdinary) (marked : r.mark? i = some c) :
    c.toNat < 128 := by
  rw [mark?] at marked
  split at marked
  · exact ordinary.ascii_placeholder c (List.mem_of_getElem? marked)
  · cases marked

theorem write_window {a w b : List Char} (ordinary : r.IsOrdinary) (before : a.length = r.position)
    (length : w.length = addressLength) :
    (a ++ w ++ b).mapIdx (fun i c => (r.mark? i).getD c) =
      a ++ placeholder r.library.toList ++ b := by
  have full := ordinary.length_placeholder
  have kept {i : Nat} (outside : i < a.length ∨ a.length + addressLength ≤ i) (c : Char) :
      (r.mark? i).getD c = c := by
    rw [Reference.mark?_of_uncovered, Option.getD_none]
    rw [← Bool.not_eq_true, Reference.covers_iff]
    omega
  have left : a.mapIdx (fun i c => (r.mark? i).getD c) = a := by
    refine List.ext_getElem (by simp) fun i _ lt => ?_
    rw [List.getElem_mapIdx, kept (.inl lt)]
  have right : b.mapIdx (fun i c => (r.mark? (i + (a ++ w).length)).getD c) = b := by
    refine List.ext_getElem (by simp) fun i _ _ => ?_
    rw [List.getElem_mapIdx, kept]
    rw [List.length_append]
    omega
  have window : w.mapIdx (fun i c => (r.mark? (i + a.length)).getD c) =
      placeholder r.library.toList := by
    refine List.ext_getElem (by simp [length, full]) fun i lt lt' => ?_
    have covered : r.covers (i + a.length) = true := Reference.covers_iff.2 (by omega)
    have offset : i + a.length - r.position = i := by omega
    rw [List.getElem_mapIdx, Reference.mark?_of_covered covered, offset,
      List.getElem?_eq_getElem lt', Option.getD_some]
  rw [List.mapIdx_append, List.mapIdx_append, left, right, window]

theorem patch_of_fits (ascii : ∀ c ∈ code, c.toNat < 128) (ordinary : r.IsOrdinary)
    (fits : r.Fits code.length) :
    patch code r = .ok (code.mapIdx fun i c => (r.mark? i).getD c) := by
  obtain ⟨a, w, b, rfl, before, length⟩ := exists_window fits
  have bytes {s : List Char} (part : ∀ c ∈ s, c ∈ a ++ w ++ b) :
      Text.utf8Length s = s.length :=
    Text.utf8Length_eq_length fun c mem => ascii c (part c mem)
  rw [write_window ordinary before length,
    patch_window ((bytes (by simp +contextual)).trans before)
      ((bytes (by simp +contextual)).trans length)]

theorem patch_of_not_fits (ascii : ∀ c ∈ code, c.toNat < 128) (long : ¬ r.Fits code.length) :
    patch code r = .error (.linkReference r.library r.start code.length) := by
  have bytes := Text.utf8Length_eq_length ascii
  rw [patch_eq_cutOut]
  cases cut : cutOut r.position code with
  | none => rw [bytes]
  | some parts =>
    obtain ⟨-, total⟩ := utf8Length_of_cutOut cut
    exact absurd (by rw [Reference.Fits, ← bytes]; omega) long

theorem overwrite_cons (r : Reference) (later : List Reference) (i : Nat) (c : Char) :
    overwrite (r :: later) i c = overwrite later i ((r.mark? i).getD c) := rfl

theorem patchAll_cons (code : List Char) (r : Reference) (later : List Reference) :
    patchAll code (r :: later) = (patch code r).bind (patchAll · later) := rfl

theorem ascii_overwrite (ordinary : ∀ r ∈ found, r.IsOrdinary) (ascii : c.toNat < 128) :
    (overwrite found i c).toNat < 128 := by
  induction found generalizing c with
  | nil => exact ascii
  | cons r later ih =>
    obtain ⟨first, others⟩ := List.forall_mem_cons.1 ordinary
    rw [overwrite_cons]
    cases marked : r.mark? i with
    | none => exact ih others ascii
    | some d => exact ih others (first.ascii_of_mark? marked)

theorem ascii_mapIdx_overwrite (ordinary : ∀ r ∈ found, r.IsOrdinary)
    (ascii : ∀ c ∈ code, c.toNat < 128) : ∀ c ∈ code.mapIdx (overwrite found), c.toNat < 128 := by
  intro c mem
  obtain ⟨i, lt, rfl⟩ := List.mem_mapIdx.1 mem
  exact ascii_overwrite ordinary (ascii _ (List.getElem_mem lt))

theorem patchAll_eq (ascii : ∀ c ∈ code, c.toNat < 128) (ordinary : ∀ r ∈ found, r.IsOrdinary) :
    patchAll code found = match found.find? fun r => ¬ r.Fits code.length with
      | some r => .error (.linkReference r.library r.start code.length)
      | none => .ok (code.mapIdx (overwrite found)) := by
  induction found generalizing code with
  | nil =>
    have same : code.mapIdx (overwrite []) = code :=
      List.ext_getElem (by simp) fun _ _ _ => by rw [List.getElem_mapIdx]; rfl
    rw [List.find?_nil, same]
    rfl
  | cons r later ih =>
    obtain ⟨first, others⟩ := List.forall_mem_cons.1 ordinary
    by_cases fits : r.Fits code.length
    · rw [patchAll_cons, patch_of_fits ascii first fits, List.find?_cons_of_neg (by simpa using fits)]
      have ascii' : ∀ c ∈ code.mapIdx fun i c => (r.mark? i).getD c, c.toNat < 128 :=
        ascii_mapIdx_overwrite (List.forall_mem_singleton.2 first) ascii
      change patchAll _ later = _
      rw [ih ascii' others, List.length_mapIdx, List.mapIdx_mapIdx]
      rfl
    · rw [patchAll_cons, patch_of_not_fits ascii fits, List.find?_cons_of_pos (by simpa using fits)]
      rfl

theorem overwrite_append : overwrite (earlier ++ later) i c =
    overwrite later i (overwrite earlier i c) :=
  List.foldl_append

theorem overwrite_of_uncovered (free : ∀ r ∈ found, r.covers i = false) :
    overwrite found i c = c := by
  induction found with
  | nil => rfl
  | cons r later ih =>
    rw [overwrite_cons, Reference.mark?_of_uncovered (free r List.mem_cons_self)]
    exact ih fun q mem => free q (List.mem_cons_of_mem _ mem)

theorem overwrite_of_last (covered : r.covers i = true)
    (last : ∀ q ∈ later, q.covers i = false) :
    some (overwrite (earlier ++ r :: later) i c) =
      (placeholder r.library.toList)[i - r.position]? := by
  obtain ⟨d, marked⟩ := Option.isSome_iff_exists.1 (Reference.mark?_isSome covered)
  rw [overwrite_append, overwrite_cons, overwrite_of_uncovered last, marked, Option.getD_some,
    ← marked, Reference.mark?_of_covered covered]

theorem overwrite_const_or_id (found : List Reference) (i : Nat) :
    (∀ c d, overwrite found i c = overwrite found i d) ∨ ∀ c, overwrite found i c = c := by
  induction found with
  | nil => exact .inr fun _ => rfl
  | cons r later ih =>
    simp only [overwrite_cons]
    cases r.mark? i with
    | none => exact ih
    | some m => exact .inl fun _ _ => rfl

theorem overwrite_overwrite : overwrite found i (overwrite found i c) = overwrite found i c := by
  rcases overwrite_const_or_id found i with const | id
  · exact const _ _
  · exact id _

section

variable {code linked : String} {found : LinkReferences}

theorem placeholders_eq (ascii : ∀ c ∈ code.toList, c.toNat < 128)
    (ordinary : ∀ r ∈ references found, r.IsOrdinary) :
    placeholders code found = match (references found).find? fun r => ¬ r.Fits code.length with
      | some r => .error (.linkReference r.library r.start code.length)
      | none => .ok (.ofList (code.toList.mapIdx (overwrite (references found)))) := by
  rw [placeholders, patchAll_eq ascii ordinary, String.length_toList]
  cases (references found).find? fun r => ¬ r.Fits code.length <;> rfl

theorem placeholders_eq_ok_iff (ascii : ∀ c ∈ code.toList, c.toNat < 128)
    (ordinary : ∀ r ∈ references found, r.IsOrdinary) :
    placeholders code found = .ok linked ↔ (∀ r ∈ references found, r.Fits code.length) ∧
      linked.toList = code.toList.mapIdx (overwrite (references found)) := by
  rw [placeholders_eq ascii ordinary]
  cases first : (references found).find? fun r => ¬ r.Fits code.length with
  | none =>
    have fit : ∀ r ∈ references found, r.Fits code.length := by simpa using first
    rw [Except.ok.injEq, and_iff_right fit, ← String.toList_inj, String.toList_ofList, eq_comm]
  | some r =>
    refine iff_of_false nofun fun all => ?_
    have long : ¬ r.Fits code.length := by simpa using List.find?_some first
    exact long (all.1 r (List.mem_of_find?_eq_some first))

theorem placeholders_of_first {earlier later : List Reference} {r : Reference}
    (ascii : ∀ c ∈ code.toList, c.toNat < 128)
    (ordinary : ∀ r ∈ references found, r.IsOrdinary)
    (split : references found = earlier ++ r :: later) (fine : ∀ q ∈ earlier, q.Fits code.length)
    (long : ¬ r.Fits code.length) :
    placeholders code found = .error (.linkReference r.library r.start code.length) := by
  have skip : earlier.find? (fun r => ¬ r.Fits code.length) = none := by simpa using fine
  have first : (references found).find? (fun r => ¬ r.Fits code.length) = some r := by
    rw [split, List.find?_append, skip, Option.none_or, List.find?_cons_of_pos (by simpa using long)]
  rw [placeholders_eq ascii ordinary, first]

theorem Reference.covers_of_lt {r : Reference} {i : Nat} (lt : i < 2) : r.covers i = false := by
  rw [← Bool.not_eq_true, covers_iff, position]
  omega

end

theorem getElem?_overwritten {earlier later : List Reference} {r : Reference} {code : List Char}
    {i : Nat} (fits : r.Fits code.length) (covered : r.covers i = true)
    (last : ∀ q ∈ later, q.covers i = false) :
    (code.mapIdx (overwrite (earlier ++ r :: later)))[i]? =
      (placeholder r.library.toList)[i - r.position]? := by
  have inside := Reference.covers_iff.1 covered
  have lt : i < code.length := Nat.lt_of_lt_of_le inside.2 fits
  rw [List.getElem?_mapIdx, List.getElem?_eq_getElem lt, Option.map_some,
    overwrite_of_last covered last]

theorem prefix_overwritten (found : List Reference) {code : List Char}
    (start : ['0', 'x'] <+: code) : ['0', 'x'] <+: code.mapIdx (overwrite found) := by
  obtain ⟨rest, rfl⟩ := start
  have kept {i : Nat} (lt : i < 2) (c : Char) : overwrite found i c = c :=
    overwrite_of_uncovered fun _ _ => Reference.covers_of_lt lt
  simp only [List.cons_append, List.nil_append, List.mapIdx_cons, kept Nat.zero_lt_two,
    kept Nat.one_lt_two, Nat.zero_add]
  exact ⟨_, rfl⟩

/-- References to libraries with ordinary names can be linked if all of them fit into the code, and
else the first of them that does not is the failure. In linked code each character is the one of the
last reference that reaches it, or the one that was there if none does. -/
theorem placeholders_ordinary {code : String} {found : LinkReferences}
    (ascii : ∀ c ∈ code.toList, c.toNat < 128)
    (ordinary : ∀ r ∈ references found, r.IsOrdinary) :
    ((∃ linked, placeholders code found = .ok linked) ↔
      ∀ r ∈ references found, 2 + 2 * r.start + 40 ≤ code.length) ∧
    (∀ earlier r later, references found = earlier ++ r :: later →
      (∀ q ∈ earlier, 2 + 2 * q.start + 40 ≤ code.length) → code.length < 2 + 2 * r.start + 40 →
        placeholders code found = .error (.linkReference r.library r.start code.length)) ∧
    ∀ linked, placeholders code found = .ok linked →
      linked.length = code.length ∧
      (∀ i, (∀ r ∈ references found, r.covers i = false) →
        linked.toList[i]? = code.toList[i]?) ∧
      (∀ i earlier r later, references found = earlier ++ r :: later → r.covers i = true →
        (∀ q ∈ later, q.covers i = false) →
          linked.toList[i]? = (placeholder r.library.toList)[i - (2 + 2 * r.start)]?) ∧
      (['0', 'x'] <+: code.toList → ['0', 'x'] <+: linked.toList) ∧
      placeholders linked found = .ok linked := by
  have fits_iff (r : Reference) : 2 + 2 * r.start + 40 ≤ code.length ↔ r.Fits code.length := .rfl
  simp only [fits_iff, ← Nat.not_le]
  refine ⟨⟨fun ⟨_, ok⟩ => ((placeholders_eq_ok_iff ascii ordinary).1 ok).1, fun fit => ?_⟩, ?_, ?_⟩
  · exact ⟨_, (placeholders_eq_ok_iff ascii ordinary).2 ⟨fit, String.toList_ofList⟩⟩
  · intro earlier r later split fine long
    exact placeholders_of_first ascii ordinary split fine long
  intro linked ok
  obtain ⟨fit, text⟩ := (placeholders_eq_ok_iff ascii ordinary).1 ok
  have length : linked.length = code.length := by
    rw [← String.length_toList, text, List.length_mapIdx, String.length_toList]
  refine ⟨length, ?_, ?_, ?_, ?_⟩
  · intro i free
    have same : overwrite (references found) i = id := funext fun _ => overwrite_of_uncovered free
    rw [text, List.getElem?_mapIdx, same, Option.map_id_apply]
  · intro i earlier r later split covered last
    have here : r.Fits code.toList.length := by
      rw [String.length_toList]
      exact fit r (split ▸ List.mem_append_right _ List.mem_cons_self)
    rw [text, split]
    exact getElem?_overwritten here covered last
  · intro start
    rw [text]
    exact prefix_overwritten _ start
  · have ascii' : ∀ c ∈ linked.toList, c.toNat < 128 := by
      rw [text]
      exact ascii_mapIdx_overwrite ordinary ascii
    refine (placeholders_eq_ok_iff ascii' ordinary).2 ⟨by rwa [length], ?_⟩
    have same : (fun i => overwrite (references found) i ∘ overwrite (references found) i) =
        overwrite (references found) := funext₂ fun _ _ => overwrite_overwrite
    rw [text, List.mapIdx_mapIdx, same]

def overlapping : LinkReferences :=
  .ofList [("b.sol", .singleton "Convert" [⟨10, 20⟩, ⟨20, 0⟩]), ("a.sol", .singleton "Math" [⟨5, 20⟩])]

theorem placeholders_ordinary_overlapping :
    (∀ r ∈ references overlapping, r.IsOrdinary) ∧
    ∃ linked, placeholders ("0x" ++ twoAddresses) overlapping = .ok linked ∧
      linked.length = 82 ∧ linked.toList[11]? = some '0' ∧ linked.toList[24]? = some 'C' ∧
      ['0', 'x'] <+: linked.toList ∧ placeholders linked overlapping = .ok linked := by
  have ascii : ∀ c ∈ ("0x" ++ twoAddresses).toList, c.toNat < 128 := by
    rw [String.toList_append, List.forall_mem_append]
    exact ⟨by simp, twoAddresses_ascii⟩
  have ordinary : ∀ r ∈ references overlapping, r.IsOrdinary := by decide +kernel
  obtain ⟨succeeds, -, effect⟩ := placeholders_ordinary ascii ordinary
  obtain ⟨linked, ok⟩ := succeeds.2 (by decide +kernel)
  obtain ⟨length, outside, inside, start, again⟩ := effect linked ok
  refine ⟨ordinary, linked, ok, length.trans (by decide +kernel),
    (outside 11 (by decide +kernel)).trans (by decide +kernel), ?_, start (by decide +kernel),
    again⟩
  -- the windows of the first two references reach this character
  exact (inside 24 [⟨"Math", 5⟩] ⟨"Convert", 10⟩ [⟨"Convert", 20⟩] (by decide +kernel)
    (by decide +kernel) (by decide +kernel)).trans (by decide +kernel)

end ContractBuild.Link
