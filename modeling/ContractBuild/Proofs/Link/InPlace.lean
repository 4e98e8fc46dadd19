import ContractBuild.Artifact.Assembly
import ContractBuild.Proofs.Text.Bytes
import Mathlib.Data.List.Basic
import Mathlib.Data.List.Induction

/-!
# Linking in place

What linking is to write: at every character of the code either the character itself or, where the
window of a reference begins, its placeholder. The definition reads offsets in the original code
only and does not depend on the order of the references. Patching one window of a text whose
earlier part has kept its length in bytes adds exactly that window, so patching follows the
definition as long as every placeholder before the next window has the length of an address.
-/

namespace ContractBuild.Link

def Reference.covers (r : Reference) (i : Nat) : Bool :=
  r.position ≤ i && i < r.position + addressLength

def site (found : List Reference) (i : Nat) (c : Char) : List Char :=
  match found.find? (·.covers i) with
  | some r => if r.position = i then placeholder r.library.toList else []
  | none => [c]

def inPlaceFrom (found : List Reference) (k : Nat) (code : List Char) : List Char :=
  (code.zipIdx k).flatMap fun (c, i) => site found i c

/-- The code with the window of every reference replaced by its placeholder. -/
def inPlace (found : List Reference) (code : String) : String :=
  .ofList (inPlaceFrom found 0 code.toList)

def Reference.Apart (q r : Reference) : Prop :=
  q.position + addressLength ≤ r.position ∨ r.position + addressLength ≤ q.position

/-- Whether writing `q` first leaves the window of `r` where it is. -/
def Reference.Spares (q r : Reference) : Prop :=
  Text.utf8Length (placeholder q.library.toList) = addressLength ∨ r.position < q.position

instance : DecidableRel Reference.Apart := fun q r =>
  inferInstanceAs (Decidable (q.position + addressLength ≤ r.position ∨
    r.position + addressLength ≤ q.position))

instance : DecidableRel Reference.Spares := fun q r =>
  inferInstanceAs (Decidable (Text.utf8Length (placeholder q.library.toList) = addressLength ∨
    r.position < q.position))

variable {found earlier rest : List Reference} {q r : Reference} {code a w b : List Char}
  {c : Char} {i k : Nat}

theorem Reference.covers_iff :
    r.covers i = true ↔ r.position ≤ i ∧ i < r.position + addressLength := by
  simp [covers]

theorem Reference.Apart.not_covers (apart : q.Apart r) (inside : r.covers i = true) :
    q.covers i = false := by
  rw [Reference.covers_iff] at inside
  rw [← Bool.not_eq_true, Reference.covers_iff]
  unfold Reference.Apart at apart
  omega

theorem addressLength_le_placeholder (library : List Char) :
    addressLength ≤ Text.utf8Length (placeholder library) := by
  have long : addressLength ≤ (placeholder library).length := by
    simp only [placeholder, List.length_append, List.length_replicate]
    omega
  exact Nat.le_trans long (Text.length_le_utf8Length _)

theorem inPlaceFrom_append (found : List Reference) (k : Nat) (a b : List Char) :
    inPlaceFrom found k (a ++ b) = inPlaceFrom found k a ++ inPlaceFrom found (k + a.length) b := by
  simp only [inPlaceFrom, List.zipIdx_append, List.flatMap_append]

theorem inPlaceFrom_nil (k : Nat) (code : List Char) : inPlaceFrom [] k code = code := by
  induction code generalizing k with
  | nil => rfl
  | cons c code ih =>
    have tail := ih (k + 1)
    simp only [inPlaceFrom, site, List.find?_nil] at tail
    simp only [inPlaceFrom, List.zipIdx_cons, List.flatMap_cons, site, List.find?_nil, tail]
    rfl

theorem inPlaceFrom_congr {found found' : List Reference}
    (same : ∀ i c, k ≤ i → i < k + code.length → site found i c = site found' i c) :
    inPlaceFrom found k code = inPlaceFrom found' k code := by
  refine List.flatMap_congr fun (c, i) mem => ?_
  exact same i c (List.le_snd_of_mem_zipIdx mem) (List.snd_lt_add_of_mem_zipIdx mem)

theorem site_of_uncovered (free : ∀ q ∈ found, q.covers i = false) : site found i c = [c] := by
  have none : found.find? (·.covers i) = none :=
    List.find?_eq_none.2 fun q mem => by simp [free q mem]
  simp only [site, none]

theorem inPlaceFrom_of_uncovered
    (free : ∀ q ∈ found, ∀ i, k ≤ i → i < k + code.length → q.covers i = false) :
    inPlaceFrom found k code = code := by
  have same : inPlaceFrom found k code = inPlaceFrom [] k code := by
    apply inPlaceFrom_congr
    intro i c ge lt
    rw [site_of_uncovered fun q mem => free q mem i ge lt]
    rfl
  rw [same, inPlaceFrom_nil]

theorem site_concat_outside (outside : r.covers i = false) :
    site (found ++ [r]) i c = site found i c := by
  have skip : [r].find? (·.covers i) = none := by simp [outside]
  simp only [site, List.find?_append, skip, Option.or_none]

theorem site_concat_inside (apart : ∀ q ∈ found, q.Apart r) (inside : r.covers i = true) :
    site (found ++ [r]) i c =
      if r.position = i then placeholder r.library.toList else [] := by
  have none : found.find? (·.covers i) = none :=
    List.find?_eq_none.2 fun q mem => by simp [(apart q mem).not_covers inside]
  have hit : [r].find? (·.covers i) = some r := by simp [inside]
  simp only [site, List.find?_append, none, hit, Option.none_or]

theorem inPlaceFrom_concat_outside
    (outside : ∀ i, k ≤ i → i < k + code.length → r.covers i = false) :
    inPlaceFrom (found ++ [r]) k code = inPlaceFrom found k code :=
  inPlaceFrom_congr fun i _ ge lt => site_concat_outside (outside i ge lt)

theorem inPlaceFrom_concat_window (apart : ∀ q ∈ found, q.Apart r)
    (length : w.length = addressLength) :
    inPlaceFrom (found ++ [r]) r.position w = placeholder r.library.toList := by
  obtain ⟨c, w, rfl⟩ := List.exists_cons_of_length_pos (length ▸ (by decide : 0 < addressLength))
  rw [List.length_cons] at length
  have first : site (found ++ [r]) r.position c = placeholder r.library.toList := by
    have inside : r.covers r.position = true := Reference.covers_iff.2 ⟨Nat.le_refl _, by omega⟩
    rw [site_concat_inside apart inside, if_pos rfl]
  have others : inPlaceFrom (found ++ [r]) (r.position + 1) w = [] := by
    refine List.flatMap_eq_nil_iff.2 fun (d, i) mem => ?_
    have ge := List.le_snd_of_mem_zipIdx mem
    have lt := List.snd_lt_add_of_mem_zipIdx mem
    dsimp only at ge lt
    have inside : r.covers i = true := Reference.covers_iff.2 (by omega)
    change site (found ++ [r]) i d = []
    rw [site_concat_inside apart inside, if_neg (by omega)]
  calc inPlaceFrom (found ++ [r]) r.position (c :: w)
      = site (found ++ [r]) r.position c ++ inPlaceFrom (found ++ [r]) (r.position + 1) w := rfl
    _ = placeholder r.library.toList := by rw [first, others, List.append_nil]

theorem inPlaceFrom_concat_split (apart : ∀ q ∈ found, q.Apart r) (before : a.length = r.position)
    (length : w.length = addressLength) :
    inPlaceFrom (found ++ [r]) 0 (a ++ w ++ b) =
      inPlaceFrom found 0 a ++ placeholder r.library.toList ++
        inPlaceFrom found (r.position + addressLength) b := by
  have left : inPlaceFrom (found ++ [r]) 0 a = inPlaceFrom found 0 a := by
    apply inPlaceFrom_concat_outside
    intro i _ lt
    rw [← Bool.not_eq_true, Reference.covers_iff]
    omega
  have right : inPlaceFrom (found ++ [r]) (r.position + addressLength) b =
      inPlaceFrom found (r.position + addressLength) b := by
    apply inPlaceFrom_concat_outside
    intro i ge _
    rw [← Bool.not_eq_true, Reference.covers_iff]
    omega
  simp only [inPlaceFrom_append, List.length_append, Nat.zero_add, before, length, left, right]
  rw [inPlaceFrom_concat_window apart length]

theorem inPlaceFrom_split (apart : ∀ q ∈ found, q.Apart r) (before : a.length = r.position)
    (length : w.length = addressLength) :
    inPlaceFrom found 0 (a ++ w ++ b) =
      inPlaceFrom found 0 a ++ w ++ inPlaceFrom found (r.position + addressLength) b := by
  have untouched : inPlaceFrom found r.position w = w := by
    apply inPlaceFrom_of_uncovered
    intro q mem i ge lt
    exact (apart q mem).not_covers (Reference.covers_iff.2 (by omega))
  simp only [inPlaceFrom_append, List.length_append, Nat.zero_add, before, length, untouched]

theorem exists_window (fits : r.position + addressLength ≤ code.length) :
    ∃ a w b, code = a ++ w ++ b ∧ a.length = r.position ∧ w.length = addressLength := by
  refine ⟨code.take r.position, (code.drop r.position).take addressLength,
    (code.drop r.position).drop addressLength, ?_, ?_, ?_⟩
  · rw [List.append_assoc, List.take_append_drop, List.take_append_drop]
  · rw [List.length_take]
    omega
  · rw [List.length_take, List.length_drop]
    omega

theorem patch_window (before : Text.utf8Length a = r.position)
    (length : Text.utf8Length w = addressLength) :
    patch (a ++ w ++ b) r = .ok (a ++ placeholder r.library.toList ++ b) := by
  have cut : Text.splitBytes r.position (a ++ w ++ b) = some (a, w ++ b) := by
    rw [List.append_assoc, ← before, Text.splitBytes_append]
  have cut' : Text.splitBytes addressLength (w ++ b) = some (w, b) := by
    rw [← length, Text.splitBytes_append]
  simp only [patch, cut, Option.bind_eq_bind, Option.bind_some, cut']

theorem utf8Length_inPlaceFrom (ascii : ∀ c ∈ a, c.toNat < 128)
    (apart : found.Pairwise Reference.Apart)
    (fill : ∀ q ∈ found, (q.position + addressLength ≤ a.length ∧
      Text.utf8Length (placeholder q.library.toList) = addressLength) ∨ a.length ≤ q.position) :
    Text.utf8Length (inPlaceFrom found 0 a) = a.length := by
  induction found using List.reverseRecOn with
  | nil => rw [inPlaceFrom_nil, Text.utf8Length_eq_length ascii]
  | append_singleton found q ih =>
    obtain ⟨apart, -, across⟩ := List.pairwise_append.1 apart
    have known := ih apart fun q mem => fill q (List.mem_append_left _ mem)
    have aparts : ∀ p ∈ found, p.Apart q := fun p mem => across p mem q List.mem_cons_self
    rcases fill q (List.mem_append_right _ List.mem_cons_self) with ⟨within, full⟩ | behind
    · obtain ⟨x, w, y, rfl, before, length⟩ := exists_window within
      have wide : Text.utf8Length w = addressLength := by
        rw [Text.utf8Length_eq_length fun c mem => ascii c (by simp [mem]), length]
      rw [inPlaceFrom_split aparts before length] at known
      rw [inPlaceFrom_concat_split aparts before length]
      simp only [Text.utf8Length_append, full, wide] at known ⊢
      exact known
    · rw [inPlaceFrom_concat_outside, known]
      intro i _ lt
      rw [← Bool.not_eq_true, Reference.covers_iff]
      omega

theorem patch_inPlaceFrom (ascii : ∀ c ∈ code, c.toNat < 128)
    (apart : (found ++ [r]).Pairwise Reference.Apart) (spares : ∀ q ∈ found, q.Spares r)
    (fits : r.position + addressLength ≤ code.length) :
    patch (inPlaceFrom found 0 code) r = .ok (inPlaceFrom (found ++ [r]) 0 code) := by
  obtain ⟨apart, -, across⟩ := List.pairwise_append.1 apart
  have aparts : ∀ q ∈ found, q.Apart r := fun q mem => across q mem r List.mem_cons_self
  obtain ⟨a, w, b, rfl, before, length⟩ := exists_window fits
  have wide : Text.utf8Length w = addressLength := by
    rw [Text.utf8Length_eq_length fun c mem => ascii c (by simp [mem]), length]
  have kept : Text.utf8Length (inPlaceFrom found 0 a) = r.position := by
    rw [← before]
    refine utf8Length_inPlaceFrom (fun c mem => ascii c (by simp [mem])) apart fun q mem => ?_
    have disjoint := aparts q mem
    have spare := spares q mem
    unfold Reference.Apart at disjoint
    unfold Reference.Spares at spare
    rw [before]
    rcases disjoint with left | right
    · exact .inl ⟨left, spare.resolve_right (by omega)⟩
    · exact .inr (by omega)
  rw [inPlaceFrom_split aparts before length, inPlaceFrom_concat_split aparts before length,
    patch_window kept wide]

theorem patchAll_inPlaceFrom (ascii : ∀ c ∈ code, c.toNat < 128)
    (apart : (earlier ++ rest).Pairwise Reference.Apart)
    (spares : (earlier ++ rest).Pairwise Reference.Spares)
    (fit : ∀ r ∈ rest, r.position + addressLength ≤ code.length) :
    patchAll (inPlaceFrom earlier 0 code) rest = .ok (inPlaceFrom (earlier ++ rest) 0 code) := by
  induction rest generalizing earlier with
  | nil => rw [List.append_nil]; rfl
  | cons r rest ih =>
    rw [List.append_cons] at apart spares ⊢
    have first : patch (inPlaceFrom earlier 0 code) r =
        .ok (inPlaceFrom (earlier ++ [r]) 0 code) := by
      obtain ⟨spares, -, -⟩ := List.pairwise_append.1 spares
      obtain ⟨-, -, spares⟩ := List.pairwise_append.1 spares
      exact patch_inPlaceFrom ascii (List.pairwise_append.1 apart).1
        (fun q mem => spares q mem r List.mem_cons_self) (fit r List.mem_cons_self)
    have others := ih apart spares fun q mem => fit q (List.mem_cons_of_mem _ mem)
    simp only [patchAll, List.foldlM_cons, first]
    exact others

theorem patchAll_eq_inPlaceFrom (ascii : ∀ c ∈ code, c.toNat < 128)
    (apart : found.Pairwise Reference.Apart) (spares : found.Pairwise Reference.Spares)
    (fit : ∀ r ∈ found, r.position + addressLength ≤ code.length) :
    patchAll code found = .ok (inPlaceFrom found 0 code) := by
  have all : patchAll (inPlaceFrom [] 0 code) found = .ok (inPlaceFrom ([] ++ found) 0 code) :=
    patchAll_inPlaceFrom ascii apart spares fit
  rwa [inPlaceFrom_nil, List.nil_append] at all

end ContractBuild.Link
