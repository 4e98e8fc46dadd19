import ContractBuild.Proofs.Link.InPlace
import Mathlib.Algebra.Order.BigOperators.Group.List
import Mathlib.Algebra.Order.Group.Nat
import Mathlib.Data.Finset.Max

/-!
# Placeholders that are too long

References are patched one after the other, each at its offset in the original code, into a text
that earlier patches have changed. A placeholder longer than an address pushes what is behind it
back, and a later reference behind it then cuts at the wrong place. The argument follows one
character through all patches. Of the references that come after too long a placeholder in front of
them take the one with the greatest offset: the last character of its window is pushed out of the
way before its turn, no other window reaches it, and so it is still in the linked code, where it has
no place. Linking in place therefore works for every code exactly when no reference is patched after
a placeholder in front of it that is longer than an address.
-/

namespace ContractBuild.Link

/-- Where the byte at `y` is once `r` is written. -/
def drift (r : Reference) (y : Nat) : Nat :=
  if y < r.position then y
  else y + (Text.utf8Length (placeholder r.library.toList) - addressLength)

theorem drift_of_missed {r : Reference} {y : Nat}
    (missed : y < r.position ∨ r.position + addressLength ≤ y) :
    drift r y = y ∧ (Text.utf8Length (placeholder r.library.toList) = addressLength ∨
        y < r.position) ∨
      Text.utf8Length (placeholder r.library.toList) ≠ addressLength ∧
        r.position + addressLength ≤ y ∧ y < drift r y := by
  have enough := addressLength_le_placeholder r.library.toList
  unfold drift
  split <;> omega

/-- No patch in turn cuts out the byte that was at `y` in the beginning. -/
def Missed : Nat → List Reference → Prop
  | _, [] => True
  | y, r :: rest =>
    (y < r.position ∨ r.position + addressLength ≤ y) ∧ Missed (drift r y) rest

variable {found earlier rest : List Reference} {q r m : Reference} {x z : List Char} {y : Nat}

def cutOut (n : Nat) (code : List Char) : Option (List Char × List Char) := do
  let (before, rest) ← Text.splitBytes n code
  let (_, after) ← Text.splitBytes addressLength rest
  some (before, after)

theorem patch_eq_cutOut (code : List Char) (r : Reference) :
    patch code r = match cutOut r.position code with
      | some (before, after) => .ok (before ++ placeholder r.library.toList ++ after)
      | none => .error (.linkReference r.library r.start (Text.utf8Length code)) := rfl

theorem cutOut_append_behind (behind : Text.utf8Length x ≤ n) (z : List Char) :
    cutOut n (x ++ z) =
      (cutOut (n - Text.utf8Length x) z).map fun parts => (x ++ parts.1, parts.2) := by
  simp only [cutOut, Option.bind_eq_bind, Text.splitBytes_append_ge behind]
  cases Text.splitBytes (n - Text.utf8Length x) z with
  | none => rfl
  | some parts =>
    simp only [Option.map_some, Option.bind_some]
    cases Text.splitBytes addressLength parts.2 <;> rfl

theorem cutOut_append_front (front : n + addressLength ≤ Text.utf8Length x) (z : List Char) :
    cutOut n (x ++ z) = (cutOut n x).map fun parts => (parts.1, parts.2 ++ z) := by
  simp only [cutOut, Option.bind_eq_bind, Text.splitBytes_append_le (Nat.le_of_add_right_le front)]
  cases first : Text.splitBytes n x with
  | none => rfl
  | some parts =>
    obtain ⟨before, rest⟩ := parts
    obtain ⟨rfl, length⟩ := Text.splitBytes_eq_some first
    rw [Text.utf8Length_append] at front
    simp only [Option.map_some, Option.bind_some]
    rw [Text.splitBytes_append_le (by omega)]
    cases Text.splitBytes addressLength rest <;> rfl

theorem utf8Length_of_cutOut (cut : cutOut n x = some (a, b)) :
    Text.utf8Length a = n ∧ Text.utf8Length x = n + addressLength + Text.utf8Length b := by
  obtain ⟨⟨before, rest⟩, first, cut⟩ := Option.bind_eq_some_iff.1 cut
  obtain ⟨⟨window, after⟩, second, eq⟩ := Option.bind_eq_some_iff.1 cut
  obtain ⟨rfl, length⟩ := Text.splitBytes_eq_some first
  obtain ⟨rfl, wide⟩ := Text.splitBytes_eq_some second
  cases eq
  simp only [Text.utf8Length_append, length, wide, Nat.add_assoc, and_self]

theorem patch_of_missed (missed : Text.utf8Length x < r.position ∨
      r.position + addressLength ≤ Text.utf8Length x) (z : List Char) :
    (∀ c : Char, c.utf8Size = 1 → ∃ f, patch (x ++ c :: z) r = .error f) ∨
      ∃ x' z', Text.utf8Length x' = drift r (Text.utf8Length x) ∧
        ∀ c : Char, c.utf8Size = 1 → patch (x ++ c :: z) r = .ok (x' ++ c :: z') := by
  rcases missed with behind | front
  · have cut : ∀ c : Char, c.utf8Size = 1 → cutOut r.position (x ++ c :: z) =
        (cutOut (r.position - (Text.utf8Length x + 1)) z).map
          fun parts => (x ++ [c] ++ parts.1, parts.2) := by
      intro c one
      have length : Text.utf8Length (x ++ [c]) = Text.utf8Length x + 1 := by
        simp only [Text.utf8Length_append, Text.utf8Length, one, Nat.add_zero]
      rw [List.append_cons, cutOut_append_behind (by omega), length]
    cases known : cutOut (r.position - (Text.utf8Length x + 1)) z with
    | none =>
      refine .inl fun c one => ?_
      rw [patch_eq_cutOut, cut c one, known]
      exact ⟨_, rfl⟩
    | some parts =>
      refine .inr ⟨x, parts.1 ++ placeholder r.library.toList ++ parts.2, ?_, fun c one => ?_⟩
      · rw [drift, if_pos behind]
      · rw [patch_eq_cutOut, cut c one, known]
        simp only [Option.map_some, List.append_assoc, List.cons_append, List.nil_append]
  · have cut : ∀ c : Char, cutOut r.position (x ++ c :: z) =
        (cutOut r.position x).map fun parts => (parts.1, parts.2 ++ c :: z) :=
      fun c => cutOut_append_front front (c :: z)
    cases known : cutOut r.position x with
    | none =>
      refine .inl fun c _ => ?_
      rw [patch_eq_cutOut, cut, known]
      exact ⟨_, rfl⟩
    | some parts =>
      obtain ⟨before, length⟩ := utf8Length_of_cutOut known
      refine .inr ⟨parts.1 ++ placeholder r.library.toList ++ parts.2, z, ?_, fun c _ => ?_⟩
      · have enough := addressLength_le_placeholder r.library.toList
        rw [drift, if_neg (by omega)]
        simp only [Text.utf8Length_append, before, length]
        omega
      · rw [patch_eq_cutOut, cut, known]
        simp only [Option.map_some, List.append_assoc]

theorem patchAll_of_missed (missed : Missed (Text.utf8Length x) found) (z : List Char) :
    (∀ c : Char, c.utf8Size = 1 → ∃ f, patchAll (x ++ c :: z) found = .error f) ∨
      ∃ x' z', ∀ c : Char, c.utf8Size = 1 →
        patchAll (x ++ c :: z) found = .ok (x' ++ c :: z') := by
  induction found generalizing x z with
  | nil => exact .inr ⟨x, z, fun _ _ => rfl⟩
  | cons r rest ih =>
    obtain ⟨here, later⟩ := missed
    have unfolded : ∀ c : Char, patchAll (x ++ c :: z) (r :: rest) =
        (patch (x ++ c :: z) r).bind (patchAll · rest) := fun _ => rfl
    rcases patch_of_missed here z with fails | ⟨x', z', length, patched⟩
    · refine .inl fun c one => ?_
      obtain ⟨f, error⟩ := fails c one
      exact ⟨f, by rw [unfolded, error]; rfl⟩
    · rw [← length] at later
      have step : ∀ c : Char, c.utf8Size = 1 →
          patchAll (x ++ c :: z) (r :: rest) = patchAll (x' ++ c :: z') rest := by
        intro c one
        rw [unfolded, patched c one]
        rfl
      rcases ih later z' with fails | ⟨x'', z'', patched'⟩
      · exact .inl fun c one => by rw [step c one]; exact fails c one
      · exact .inr ⟨x'', z'', fun c one => by rw [step c one]; exact patched' c one⟩

theorem exists_last_displaced (displaced : ¬ found.Pairwise Reference.Spares) :
    ∃ q m : Reference, [q, m].Sublist found ∧ ¬ q.Spares m ∧
      found.Pairwise fun i r => ¬ i.Spares r → r.position ≤ m.position := by
  classical
  let late := found.toFinset.filter fun m => ∃ q, [q, m].Sublist found ∧ ¬ q.Spares m
  have mem_late : ∀ i r, [i, r].Sublist found → ¬ i.Spares r → r ∈ late := by
    intro i r order not
    refine Finset.mem_filter.2 ⟨List.mem_toFinset.2 (order.mem (by simp)), i, order, not⟩
  have some : late.Nonempty := by
    simp only [List.pairwise_iff_forall_sublist, not_forall] at displaced
    obtain ⟨q, m, order, not⟩ := displaced
    exact ⟨m, mem_late q m order not⟩
  obtain ⟨m, mem, greatest⟩ := late.exists_max_image Reference.position some
  obtain ⟨-, q, order, not⟩ := Finset.mem_filter.1 mem
  refine ⟨q, m, order, not, List.pairwise_iff_forall_sublist.2 fun order' not' => ?_⟩
  exact greatest _ (mem_late _ _ order' not')

/-- The last character of the window of `m` is at `y` now: either it has been pushed back, or the
reference in front of `m` that will do so is still to come. -/
theorem missed_of_displaced (apart : rest.Pairwise Reference.Apart)
    (greatest : rest.Pairwise fun i r => ¬ i.Spares r → r.position ≤ m.position)
    (not : ¬ q.Spares m) (le : m.position + 39 ≤ y)
    (due : y = m.position + 39 → [q, m].Sublist rest)
    (pushed : m.position + 39 < y → ∃ i : Reference,
      Text.utf8Length (placeholder i.library.toList) ≠ addressLength ∧
      i.position + addressLength ≤ y ∧ ∀ r ∈ rest, ¬ i.Spares r → r.position ≤ m.position) :
    Missed y rest := by
  induction rest generalizing y with
  | nil => trivial
  | cons r rest ih =>
    obtain ⟨apartHere, apart⟩ := List.pairwise_cons.1 apart
    obtain ⟨greatestHere, greatest⟩ := List.pairwise_cons.1 greatest
    have misses : y < r.position ∨ r.position + addressLength ≤ y := by
      rcases Nat.eq_or_lt_of_le le with eq | lt
      · -- The character is still in the window of `m`, which is not the one of `r`.
        have later : m ∈ rest := by
          rcases List.sublist_cons_iff.1 (due eq.symm) with skip | ⟨tail, head, take⟩
          · exact skip.mem (by simp)
          · cases head
            exact take.mem (by simp)
        have apart := apartHere m later
        unfold Reference.Apart at apart
        simp only [addressLength] at apart ⊢
        omega
      · -- A window it is in now would be one behind `m` that is displaced as well.
        obtain ⟨i, long, before, bound⟩ := pushed lt
        have spared := mt (bound r List.mem_cons_self)
        simp only [Reference.Spares, not_or, long, not_false_eq_true, true_and] at spared
        simp only [addressLength] at before ⊢
        omega
    have moves := drift_of_missed misses
    refine ⟨misses, ih apart greatest (by omega) (fun still => ?_) fun lt => ?_⟩
    · obtain rfl : y = m.position + 39 := by omega
      rcases List.sublist_cons_iff.1 (due rfl) with skip | ⟨tail, head, take⟩
      · exact skip
      · cases head
        simp only [Reference.Spares, not_or] at not
        omega
    · rcases moves with ⟨stays, -⟩ | ⟨long, before, grows⟩
      · rw [stays] at lt ⊢
        obtain ⟨i, long, before, bound⟩ := pushed lt
        exact ⟨i, long, before, fun r mem => bound r (List.mem_cons_of_mem _ mem)⟩
      · exact ⟨r, long, by omega, greatestHere⟩

theorem inPlaceFrom_of_covered (mem : r ∈ found) (covers : r.covers x.length = true) (c d : Char)
    (z : List Char) : inPlaceFrom found 0 (x ++ c :: z) = inPlaceFrom found 0 (x ++ d :: z) := by
  have hit : (found.find? (·.covers x.length)).isSome = true :=
    List.find?_isSome.2 ⟨r, mem, covers⟩
  obtain ⟨q, first⟩ := Option.isSome_iff_exists.1 hit
  have same : site found x.length c = site found x.length d := by
    simp only [site, first]
  have head : ∀ e, inPlaceFrom found x.length (e :: z) =
      site found x.length e ++ inPlaceFrom found (x.length + 1) z := fun _ => rfl
  rw [inPlaceFrom_append, inPlaceFrom_append, Nat.zero_add, head, head, same]

theorem placeholders_eq_inPlace_iff (code : String) (found : LinkReferences) :
    placeholders code found = .ok (inPlace (references found) code) ↔
      patchAll code.toList (references found) =
        .ok (inPlaceFrom (references found) 0 code.toList) := by
  unfold placeholders inPlace
  cases patchAll code.toList (references found) with
  | error f => simp [Except.map]
  | ok text => simp [Except.map, String.ofList_inj]

theorem exists_not_inPlace (apart : found.Pairwise Reference.Apart)
    (displaced : ¬ found.Pairwise Reference.Spares) :
    ∃ code : List Char, (∀ c ∈ code, c.toNat < 128) ∧
      (∀ r ∈ found, r.position + addressLength ≤ code.length + 2) ∧
      patchAll ('0' :: 'x' :: code) found ≠ .ok (inPlaceFrom found 0 ('0' :: 'x' :: code)) := by
  obtain ⟨q, m, order, not, greatest⟩ := exists_last_displaced displaced
  have mem : m ∈ found := order.mem (by simp)
  let x := '0' :: 'x' :: List.replicate (m.position + 37) '0'
  let z := List.replicate (found.map fun r => r.position + addressLength).sum '0'
  let code (c : Char) := List.replicate (m.position + 37) '0' ++ c :: z
  have split : ∀ c, '0' :: 'x' :: code c = x ++ c :: z := fun _ => rfl
  have xChars : x.length = m.position + 39 := by simp [x]
  have xBytes : Text.utf8Length x = m.position + 39 := by
    rw [Text.utf8Length_eq_length, xChars]
    intro c mem
    simp only [x, List.mem_cons, List.mem_replicate] at mem
    rcases mem with rfl | rfl | ⟨-, rfl⟩ <;> decide
  have ascii : ∀ d : Char, d.toNat < 128 → ∀ c ∈ code d, c.toNat < 128 := by
    intro d small c mem
    simp only [code, z, List.mem_append, List.mem_cons, List.mem_replicate] at mem
    rcases mem with ⟨-, rfl⟩ | rfl | ⟨-, rfl⟩
    · decide
    · exact small
    · decide
  have fits : ∀ c, ∀ r ∈ found, r.position + addressLength ≤ (code c).length + 2 := by
    intro c r mem
    have part := List.le_sum_of_mem
      (List.mem_map_of_mem (f := fun r : Reference => r.position + addressLength) mem)
    have total : (code c).length = m.position + 37 + (z.length + 1) := by simp [code]
    have zChars : z.length = (found.map fun r => r.position + addressLength).sum := by simp [z]
    omega
  have missed : Missed (Text.utf8Length x) found := by
    rw [xBytes]
    exact missed_of_displaced apart greatest not (Nat.le_refl _) (fun _ => order)
      fun lt => absurd lt (Nat.lt_irrefl _)
  have covers : m.covers x.length = true := by
    rw [Reference.covers_iff, xChars, addressLength]
    omega
  -- linked in place, both codes are the same, for they differ below a window only; but the patches
  -- miss the character in which they differ
  by_contra! linked
  have zero := linked (code '0') (ascii '0' (by decide)) (fits '0')
  have one := linked (code '1') (ascii '1' (by decide)) (fits '1')
  rw [split] at zero one
  rw [inPlaceFrom_of_covered mem covers '1' '0'] at one
  rcases patchAll_of_missed missed z with fails | ⟨x', z', kept⟩
  · obtain ⟨f, error⟩ := fails '0' (by decide)
    rw [error] at zero
    cases zero
  · rw [kept '0' (by decide)] at zero
    rw [kept '1' (by decide)] at one
    have same : x' ++ '0' :: z' = x' ++ '1' :: z' := Except.ok.inj (zero.trans one.symm)
    rw [List.append_cancel_left_eq, List.cons.injEq] at same
    exact absurd same.1 (by decide)

/-- References whose windows are apart are linked in place in every code that has room for them,
exactly if none is patched after a placeholder in front of it that is longer than an address. -/
theorem placeholders_inPlace_iff {found : LinkReferences}
    (apart : (references found).Pairwise Reference.Apart) :
    (∀ object : String, (∀ c ∈ object.toList, c.toNat < 128) →
        (∀ r ∈ references found, r.position + addressLength ≤ ("0x" ++ object).length) →
        placeholders ("0x" ++ object) found =
          .ok (inPlace (references found) ("0x" ++ object))) ↔
      (references found).Pairwise Reference.Spares := by
  constructor
  · intro linked
    by_contra displaced
    obtain ⟨code, ascii, fits, wrong⟩ := exists_not_inPlace apart displaced
    have chars : ("0x" ++ String.ofList code).toList = '0' :: 'x' :: code := by simp
    have length : ("0x" ++ String.ofList code).length = code.length + 2 := by
      rw [← String.length_toList, chars, List.length_cons, List.length_cons]
    have inPlace := linked (.ofList code) (by simpa using ascii) (by simpa only [length] using fits)
    rw [placeholders_eq_inPlace_iff, chars] at inPlace
    exact wrong inPlace
  · intro spares object ascii fits
    rw [placeholders_eq_inPlace_iff]
    refine patchAll_eq_inPlaceFrom ?_ apart spares fun r mem => ?_
    · intro c mem
      rw [String.toList_append, List.mem_append] at mem
      rcases mem with start | rest
      · have two : c = '0' ∨ c = 'x' := by simpa using start
        rcases two with rfl | rfl <;> decide
      · exact ascii c rest
    · rw [String.length_toList]
      exact fits r mem

def oneLibrary (file library : String) (offsets : List Offsets) : LinkReferences :=
  .singleton file (.singleton library offsets)

def backToFront : LinkReferences :=
  oneLibrary "a.sol" "ThirtyNineCharactersLongLibraryNameOnly" [⟨20, 20⟩, ⟨0, 20⟩]

def frontToBack : LinkReferences :=
  oneLibrary "a.sol" "ThirtyNineCharactersLongLibraryNameOnly" [⟨0, 20⟩, ⟨20, 20⟩]

def twoAddresses : String := .ofList (List.replicate 80 '0')

theorem twoAddresses_ascii (c : Char) (mem : c ∈ twoAddresses.toList) : c.toNat < 128 := by
  unfold twoAddresses at mem
  rw [String.toList_ofList] at mem
  obtain rfl := List.eq_of_mem_replicate mem
  decide

theorem placeholders_inPlace_backToFront :
    (references backToFront).Pairwise Reference.Apart ∧
      placeholders ("0x" ++ twoAddresses) backToFront =
        .ok (inPlace (references backToFront) ("0x" ++ twoAddresses)) :=
  ⟨by decide +kernel, (placeholders_inPlace_iff (by decide +kernel)).2 (by decide +kernel)
    twoAddresses twoAddresses_ascii (by decide +kernel)⟩

theorem placeholders_frontToBack_misplaced :
    (references frontToBack).Pairwise Reference.Apart ∧
      (∀ r ∈ references frontToBack, r.position + addressLength ≤
        ("0x" ++ twoAddresses).length) ∧
      (placeholders ("0x" ++ twoAddresses) frontToBack).toOption = some ("0x" ++
        "__ThirtyNineCharactersLongLibraryNameOnl" ++
        "__ThirtyNineCharactersLongLibraryNameOnly" ++ "0") ∧
      inPlace (references frontToBack) ("0x" ++ twoAddresses) = "0x" ++
        "__ThirtyNineCharactersLongLibraryNameOnly" ++
        "__ThirtyNineCharactersLongLibraryNameOnly" := by
  decide +kernel

end ContractBuild.Link
