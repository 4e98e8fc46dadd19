import ContractBuild.Artifact.DeclarationOrder
import ContractBuild.Proofs.SortedMap
import Mathlib.Data.List.Dedup

/-!
# The order of interface entries

A tree declares functions for a contract: those of its first definition of the contract, in their
order. Entries that are not named like one of them stay in front, and the others follow, grouped by
name, in the order in which the names are declared for the last time. So the list can be written
down without a sort, and what it is made of does not depend on the order of the entries that were
given, but within the groups.
-/

namespace ContractBuild.DeclarationOrder

variable {form : Form} {contract : String} {tree : Json} {names declared : List String}
  {legacyTree compactTree : Option Json} {abi front behind : List Json}

def Form.Defines (form : Form) (contract : String) (node : Json) : Prop :=
  form.kind node = some "ContractDefinition" ∧ form.name node = some contract

def Form.functionsAmong (form : Form) (nodes : List Json) : List String :=
  (nodes.filter fun node => form.kind node = some "FunctionDefinition").filterMap form.name

/-- The functions that a tree declares for a contract: those of the first definition, if any. -/
inductive Form.Declares (form : Form) (tree : Json) (contract : String) : List String → Prop
  | defined {before after : List Json} {found : Json}
      (top : form.children tree = some (before ++ found :: after))
      (first : ∀ node ∈ before, ¬ form.Defines contract node)
      (here : form.Defines contract found) :
      Declares form tree contract (form.functionsAmong ((form.children found).getD []))
  | undefined (other : ∀ node ∈ (form.children tree).getD [], ¬ form.Defines contract node) :
      Declares form tree contract []

/-- The functions that are declared for a contract by the tree that counts, which is the legacy
tree if there is one with members. -/
inductive Declared (contract : String) (legacyTree compactTree : Option Json) :
    List String → Prop
  | legacy {tree : Json} {names : List String} (given : legacyTree = some tree)
      (made : tree ≠ .object []) (declares : legacy.Declares tree contract names) :
      Declared contract legacyTree compactTree names
  | compact {tree : Json} {names : List String}
      (unmade : legacyTree = none ∨ legacyTree = some (.object []))
      (given : compactTree = some tree) (declares : compact.Declares tree contract names) :
      Declared contract legacyTree compactTree names
  | noTree (unmade : legacyTree = none ∨ legacyTree = some (.object []))
      (absent : compactTree = none) : Declared contract legacyTree compactTree []

instance (form : Form) (contract : String) (node : Json) :
    Decidable (form.Defines contract node) :=
  inferInstanceAs (Decidable (_ ∧ _))

theorem Form.functionNames_eq (form : Form) (tree : Json) (contract : String) :
    form.functionNames tree contract =
      (((form.children tree).getD []).find? fun node => form.Defines contract node).bind fun found =>
        (form.children found).map form.functionsAmong := by
  rw [Form.functionNames]
  cases form.children tree with
  | none => rfl
  | some nodes =>
    simp only [Option.map_eq_bind]
    rfl

theorem Form.declares_iff :
    form.Declares tree contract names ↔ names = (form.functionNames tree contract).getD [] := by
  rw [Form.functionNames_eq]
  constructor
  · intro declares
    cases declares with
    | @defined before after found top first here =>
      have at_found : (before ++ found :: after).find? (fun node => form.Defines contract node) =
          some found :=
        List.find?_eq_some_iff_append.2 ⟨by simpa using here, before, after, rfl, by simpa using first⟩
      rw [top, Option.getD_some, at_found, Option.bind_some]
      cases form.children found <;> rfl
    | undefined other =>
      rw [List.find?_eq_none.2 (by simpa using other), Option.bind_none, Option.getD_none]
  · rintro rfl
    cases search : ((form.children tree).getD []).find? fun node => form.Defines contract node with
    | none => exact .undefined (by simpa using search)
    | some found =>
      obtain ⟨here, before, after, split, first⟩ := List.find?_eq_some_iff_append.1 search
      have top : form.children tree = some (before ++ found :: after) := by
        cases known : form.children tree with
        | none => simp [known] at split
        | some nodes => rw [← split, known, Option.getD_some]
      have defines : form.Defines contract found := by simpa using here
      have declares := Form.Declares.defined top (by simpa using first) defines
      rw [Option.bind_some]
      cases parts : form.children found with
      | none =>
        rw [parts] at declares
        exact declares
      | some nodes =>
        rw [parts] at declares
        exact declares

theorem nonEmptyObject_eq_none_iff {tree : Option Json} :
    nonEmptyObject tree = none ↔ tree = none ∨ tree = some (.object []) := by
  cases tree <;> simp [nonEmptyObject, Option.filter]

theorem nonEmptyObject_of_ne {tree : Json} (made : tree ≠ .object []) :
    nonEmptyObject (some tree) = some tree := by
  simp [nonEmptyObject, Option.filter, made]

theorem exists_declared (contract : String) (legacyTree compactTree : Option Json) :
    ∃ names, Declared contract legacyTree compactTree names := by
  by_cases unmade : legacyTree = none ∨ legacyTree = some (.object [])
  · cases compactTree with
    | none => exact ⟨[], .noTree unmade rfl⟩
    | some tree => exact ⟨_, .compact unmade rfl (Form.declares_iff.2 rfl)⟩
  · rw [not_or] at unmade
    obtain ⟨tree, given⟩ := Option.ne_none_iff_exists'.1 unmade.1
    exact ⟨_, .legacy given (fun eq => unmade.2 (eq ▸ given)) (Form.declares_iff.2 rfl)⟩

theorem Declared.unique (here : Declared contract legacyTree compactTree names)
    (there : Declared contract legacyTree compactTree declared) : names = declared := by
  have excluded {tree : Json} (given : legacyTree = some tree) (made : tree ≠ .object [])
      (unmade : legacyTree = none ∨ legacyTree = some (.object [])) : False := by
    rw [given] at unmade
    simp [made] at unmade
  cases here with
  | legacy given made declares =>
    cases there with
    | legacy given' _ declares' =>
      cases given.symm.trans given'
      exact (Form.declares_iff.1 declares).trans (Form.declares_iff.1 declares').symm
    | compact unmade | noTree unmade => exact (excluded given made unmade).elim
  | compact unmade given declares =>
    cases there with
    | legacy given made => exact (excluded given made unmade).elim
    | compact _ given' declares' =>
      cases given.symm.trans given'
      exact (Form.declares_iff.1 declares).trans (Form.declares_iff.1 declares').symm
    | noTree _ absent => cases given.symm.trans absent
  | noTree unmade absent =>
    cases there with
    | legacy given made => exact (excluded given made unmade).elim
    | compact _ given => cases given.symm.trans absent
    | noTree => rfl

def Named (name : String) (entry : Json) : Prop := entry.text? "name" = some name

instance (name : String) (entry : Json) : Decidable (Named name entry) :=
  inferInstanceAs (Decidable (_ = _))

def IsDeclared (declared : List String) (entry : Json) : Prop := ∃ name ∈ declared, Named name entry

instance (declared : List String) (entry : Json) : Decidable (IsDeclared declared entry) :=
  inferInstanceAs (Decidable (∃ name ∈ declared, _))

def IsLastAt (names : List String) (name : String) (i : Nat) : Prop :=
  names[i]? = some name ∧ ∀ j, i < j → names[j]? ≠ some name

theorem find?_positions_iff {name : String} {i : Nat} :
    (positions names).find? name = some i ↔ IsLastAt names name i := by
  have ordered : names.zipIdx.Pairwise fun a b => a.2 < b.2 := by
    rw [← List.pairwise_map, List.zipIdx_map_snd]
    exact List.pairwise_lt_range'
  have found := SortedMap.find?_ofList_map_eq_some_iff (k := name) (x := i) ordered
    (fun a b lt => Nat.lt_asymm lt) Prod.fst Prod.snd
  rw [List.map_id'' fun _ => rfl] at found
  rw [positions, found]
  constructor
  · rintro ⟨⟨_, _⟩, mem, rfl, rfl, greatest⟩
    refine ⟨List.mk_mem_zipIdx_iff_getElem?.1 mem, fun j lt at_j => ?_⟩
    rcases greatest (_, j) (List.mk_mem_zipIdx_iff_getElem?.2 at_j) rfl with eq | before
    · exact absurd (congrArg Prod.snd eq) (Nat.ne_of_gt lt)
    · exact Nat.lt_asymm lt before
  · rintro ⟨at_i, last⟩
    refine ⟨(name, i), List.mk_mem_zipIdx_iff_getElem?.2 at_i, rfl, rfl, ?_⟩
    rintro ⟨_, j⟩ mem rfl
    have at_j := List.mk_mem_zipIdx_iff_getElem?.1 mem
    rcases Nat.lt_trichotomy j i with lt | rfl | gt
    · exact .inr lt
    · exact .inl rfl
    · exact absurd at_j (last j gt)

theorem isLastAt_cons_iff {name other : String} {i : Nat} :
    IsLastAt (other :: names) name (i + 1) ↔ IsLastAt names name i := by
  refine and_congr_right fun _ => ⟨fun last j lt => last (j + 1) (Nat.succ_lt_succ lt), ?_⟩
  rintro last (_ | j) lt
  · cases lt
  · exact last j (Nat.lt_of_succ_lt_succ lt)

theorem isLastAt_cons_zero {name : String} (fresh : name ∉ names) :
    IsLastAt (name :: names) name 0 := by
  refine ⟨rfl, ?_⟩
  rintro (_ | j) lt at_j
  · cases lt
  · exact fresh (List.mem_of_getElem? at_j)

theorem exists_isLastAt {name : String} (mem : name ∈ names) : ∃ i, IsLastAt names name i := by
  have known : (positions names).contains name = true ↔ name ∈ names.zipIdx.map Prod.fst :=
    SortedMap.contains_ofList_iff
  rw [List.zipIdx_map_fst] at known
  obtain ⟨i, found⟩ := Option.isSome_iff_exists.1 (known.2 mem)
  exact ⟨i, find?_positions_iff.1 found⟩

def Precedes (declared : List String) (a b : Json) : Prop :=
  ∀ ⦃n m i j⦄, Named n a → Named m b → IsLastAt declared n i → IsLastAt declared m j → i ≤ j

/-- The entries in the order of the declared functions: those that are not declared as they were,
then the declared ones by their names, and those with one name as they were. -/
structure InDeclarationOrder (declared : List String) (abi front behind : List Json) : Prop where
  perm : (front ++ behind).Perm abi
  others : front = abi.filter fun e => ¬ IsDeclared declared e
  functions : ∀ e ∈ behind, IsDeclared declared e
  sorted : behind.Pairwise (Precedes declared)
  stable : ∀ name ∈ declared, behind.filter (Named name) = abi.filter (Named name)

def grouped (declared : List String) (abi : List Json) : List Json :=
  declared.dedup.flatMap fun name => abi.filter fun e => Named name e

theorem grouped_congr {abi abi' : List Json}
    (same : ∀ name ∈ declared, abi.filter (Named name) = abi'.filter (Named name)) :
    grouped declared abi = grouped declared abi' :=
  List.flatMap_congr fun name mem => same name (List.mem_dedup.1 mem)

theorem filter_append_filter_not {α : Type} {p : α → Bool} {l : List α}
    (ahead : l.Pairwise fun a b => p b = true → p a = true) :
    l.filter p ++ l.filter (fun a => !p a) = l := by
  induction l with
  | nil => rfl
  | cons a l ih =>
    obtain ⟨first, ahead⟩ := List.pairwise_cons.1 ahead
    cases holds : p a with
    | true => rw [List.filter_cons_of_pos holds, List.filter_cons_of_neg (by simp [holds]),
        List.cons_append, ih ahead]
    | false =>
      have none : ∀ b ∈ l, p b = false := by
        intro b mem
        rw [← Bool.not_eq_true]
        intro holds'
        rw [first b mem holds'] at holds
        cases holds
      rw [List.filter_eq_nil_iff.2 (by simpa [holds] using none), List.nil_append,
        List.filter_eq_self.2 (by simpa [holds] using none)]

theorem eq_grouped (functions : ∀ e ∈ behind, IsDeclared declared e)
    (sorted : behind.Pairwise (Precedes declared)) : behind = grouped declared behind := by
  induction declared generalizing behind with
  | nil =>
    have none : behind = [] := List.eq_nil_iff_forall_not_mem.2 fun e mem => by
      obtain ⟨name, mem, -⟩ := functions e mem
      cases mem
    rw [none]
    rfl
  | cons name declared ih =>
    have sorted_tail : behind.Pairwise (Precedes declared) := by
      refine sorted.imp fun {a b} precedes n m i j named named' at_i at_j => ?_
      exact Nat.le_of_succ_le_succ
        (precedes named named' (isLastAt_cons_iff.2 at_i) (isLastAt_cons_iff.2 at_j))
    by_cases again : name ∈ declared
    · rw [grouped, List.dedup_cons_of_mem again]
      refine ih (fun e mem => ?_) sorted_tail
      obtain ⟨n, mem, named⟩ := functions e mem
      rcases List.mem_cons.1 mem with rfl | mem
      · exact ⟨n, again, named⟩
      · exact ⟨n, mem, named⟩
    · -- the name comes here for the last time, so its entries go before all others
      have ahead : behind.Pairwise fun a b =>
          decide (Named name b) = true → decide (Named name a) = true := by
        refine List.Pairwise.imp_of_mem (fun {a b} mem _ precedes named => ?_) sorted
        rw [decide_eq_true_eq] at named ⊢
        obtain ⟨n, declares, named'⟩ := functions a mem
        rcases List.mem_cons.1 declares with rfl | later
        · exact named'
        · obtain ⟨i, at_i⟩ := exists_isLastAt later
          have le := precedes named' named (isLastAt_cons_iff.2 at_i) (isLastAt_cons_zero again)
          cases le
      have rest : behind.filter (fun e => !decide (Named name e)) = grouped declared behind := by
        refine (ih (fun e mem => ?_) (sorted_tail.filter _)).trans
          (grouped_congr fun n mem => ?_)
        · obtain ⟨mem, other⟩ := List.mem_filter.1 mem
          obtain ⟨n, declares, named⟩ := functions e mem
          rcases List.mem_cons.1 declares with rfl | later
          · simp [named] at other
          · exact ⟨n, later, named⟩
        · rw [List.filter_filter]
          refine List.filter_congr fun e _ => ?_
          have other : Named n e → ¬ Named name e := fun named named' =>
            again (Option.some.inj (named.symm.trans named') ▸ mem)
          simpa using other
      rw [grouped, List.dedup_cons_of_notMem again, List.flatMap_cons, ← grouped, ← rest,
        filter_append_filter_not ahead]

theorem InDeclarationOrder.eq (order : InDeclarationOrder declared abi front behind) :
    front ++ behind = abi.filter (fun e => ¬ IsDeclared declared e) ++ grouped declared abi := by
  rw [order.others, eq_grouped order.functions order.sorted, grouped_congr order.stable]

theorem positionOf_eq_some_iff {e : Json} {i : Nat} :
    positionOf (positions names) e = some i ↔ ∃ name, Named name e ∧ IsLastAt names name i := by
  simp only [positionOf, Option.bind_eq_bind, Option.bind_eq_some_iff, find?_positions_iff, Named]

theorem positionOf_isSome_iff {e : Json} :
    (positionOf (positions names) e).isSome = true ↔ IsDeclared names e := by
  simp only [Option.isSome_iff_exists, positionOf_eq_some_iff]
  constructor
  · rintro ⟨i, name, named, at_i, -⟩
    exact ⟨name, List.mem_of_getElem? at_i, named⟩
  · rintro ⟨name, mem, named⟩
    obtain ⟨i, at_i⟩ := exists_isLastAt mem
    exact ⟨i, name, named, at_i⟩

section

variable {α : Type} (key : α → Nat)

theorem trans_of_key (a b c : α) (ab : decide (key a ≤ key b) = true)
    (bc : decide (key b ≤ key c) = true) : decide (key a ≤ key c) = true := by
  rw [decide_eq_true_eq] at *
  exact Nat.le_trans ab bc

theorem total_of_key (a b : α) :
    (decide (key a ≤ key b) || decide (key b ≤ key a)) = true := by
  simpa using Nat.le_total (key a) (key b)

theorem filter_mergeSort {p : α → Bool} {l : List α}
    (same : ∀ a b, p a = true → p b = true → key a = key b) :
    (l.mergeSort fun a b => key a ≤ key b).filter p = l.filter p := by
  have level : (l.filter p).Pairwise fun a b => decide (key a ≤ key b) = true := by
    refine List.pairwise_iff_forall_sublist.2 fun {a b} sub => ?_
    have at_a := List.of_mem_filter (sub.subset (List.mem_cons_self ..))
    have at_b := List.of_mem_filter (sub.subset (List.mem_cons_of_mem _ (List.mem_singleton_self b)))
    simp [same a b at_a at_b]
  have within := (List.sublist_mergeSort (trans_of_key key) (total_of_key key) level
    List.filter_sublist).filter p
  rw [List.filter_filter, funext fun a => Bool.and_self (p a)] at within
  exact (within.eq_of_length ((List.mergeSort_perm l _).filter p).length_eq.symm).symm

end

theorem inDeclarationOrder_orderBy (names : List String) (abi : List Json) :
    ∃ front behind, orderBy (positions names) abi = front ++ behind ∧
      InDeclarationOrder names abi front behind := by
  have isNone_iff (e : Json) :
      (positionOf (positions names) e).isNone = true ↔ ¬ IsDeclared names e := by
    rw [← positionOf_isSome_iff, Option.isNone_iff_eq_none, Option.not_isSome_iff_eq_none]
  have functions : abi.filter (fun e => (positionOf (positions names) e).isSome) =
      abi.filter fun e => !(positionOf (positions names) e).isNone := by simp
  refine ⟨_, _, rfl, ?_, ?_, ?_, ?_, ?_⟩
  · rw [functions]
    exact ((List.mergeSort_perm ..).append_left _).trans (List.filter_append_perm ..)
  · exact List.filter_congr fun e _ => Bool.eq_iff_iff.2 (by simp [isNone_iff])
  · intro e mem
    exact positionOf_isSome_iff.1 (List.mem_filter.1 (List.mem_mergeSort.1 mem)).2
  · refine (List.pairwise_mergeSort (trans_of_key _) (total_of_key _) _).imp
      fun {a b} le n m i j named named' at_i at_j => ?_
    rw [decide_eq_true_eq, positionOf_eq_some_iff.2 ⟨n, named, at_i⟩,
      positionOf_eq_some_iff.2 ⟨m, named', at_j⟩] at le
    exact le
  · intro name mem
    rw [filter_mergeSort, List.filter_filter]
    · refine List.filter_congr fun e _ => ?_
      have known : Named name e → (positionOf (positions names) e).isSome = true :=
        fun named => positionOf_isSome_iff.2 ⟨name, mem, named⟩
      simpa using known
    · intro a b named named'
      rw [decide_eq_true_eq] at named named'
      have same : positionOf (positions names) a = positionOf (positions names) b := by
        rw [positionOf, positionOf, named, named']
      rw [same]

theorem order_eq_elim : order contract legacyTree compactTree abi =
    (chosen contract legacyTree compactTree).elim abi (orderBy · abi) := by
  unfold order
  cases chosen contract legacyTree compactTree <;> rfl

theorem order_of_declared (declares : Declared contract legacyTree compactTree names) :
    order contract legacyTree compactTree abi = orderBy (positions names) abi := by
  have none_declared : orderBy (positions []) abi = abi := by
    obtain ⟨front, behind, eq, order⟩ := inDeclarationOrder_orderBy [] abi
    rw [eq, order.eq]
    simp [grouped, IsDeclared]
  have chosen_by {form : Form} {tree : Json} (declares : form.Declares tree contract names) :
      (form.positions tree contract).elim abi (orderBy · abi) = orderBy (positions names) abi := by
    rw [Form.positions, Form.declares_iff.1 declares]
    cases form.functionNames tree contract with
    | none => exact none_declared.symm
    | some names => rfl
  rw [order_eq_elim]
  unfold chosen
  cases declares with
  | legacy given made declares =>
    rw [given, nonEmptyObject_of_ne made]
    exact chosen_by declares
  | noTree unmade absent =>
    rw [nonEmptyObject_eq_none_iff.2 unmade, absent]
    exact none_declared.symm
  | @compact tree _ unmade given declares =>
    rw [nonEmptyObject_eq_none_iff.2 unmade, given]
    by_cases empty : tree = .object []
    · subst empty
      rw [nonEmptyObject_eq_none_iff.2 (.inr rfl)]
      exact chosen_by declares
    · rw [nonEmptyObject_of_ne empty]
      exact chosen_by declares

theorem order_eq_grouped (declares : Declared contract legacyTree compactTree names) :
    order contract legacyTree compactTree abi =
      abi.filter (fun e => ¬ IsDeclared names e) ++ grouped names abi := by
  obtain ⟨front, behind, eq, order⟩ := inDeclarationOrder_orderBy names abi
  rw [order_of_declared declares, eq, order.eq]

/-- Every contract and pair of trees comes with one list of declared functions, and the order of
the entries by it is the only one there is. -/
theorem order_eq_iff_inDeclarationOrder (contract : String)
    (legacyTree compactTree : Option Json) :
    ∃ declared : List String,
      (∀ names, Declared contract legacyTree compactTree names ↔ names = declared) ∧
      ∀ abi ordered, order contract legacyTree compactTree abi = ordered ↔
        ∃ front behind, ordered = front ++ behind ∧
          InDeclarationOrder declared abi front behind := by
  obtain ⟨declared, declares⟩ := exists_declared contract legacyTree compactTree
  refine ⟨declared, fun names => ⟨fun other => other.unique declares, fun eq => eq ▸ declares⟩,
    fun abi ordered => ⟨?_, ?_⟩⟩
  · rintro rfl
    rw [order_of_declared declares]
    exact inDeclarationOrder_orderBy declared abi
  · rintro ⟨front, behind, rfl, sorted⟩
    rw [order_eq_grouped declares, sorted.eq]

theorem filter_order (declares : Declared contract legacyTree compactTree names) :
    (order contract legacyTree compactTree abi).filter (fun e => ¬ IsDeclared names e) =
        abi.filter (fun e => ¬ IsDeclared names e) ∧
      ∀ name ∈ names, (order contract legacyTree compactTree abi).filter (Named name) =
        abi.filter (Named name) := by
  obtain ⟨front, behind, eq, sorted⟩ := inDeclarationOrder_orderBy names abi
  rw [order_of_declared declares, eq]
  have others : ∀ e ∈ front, ¬ IsDeclared names e := by
    rw [sorted.others]
    exact fun e mem => by simpa using List.of_mem_filter mem
  constructor
  · rw [List.filter_append, List.filter_eq_self.2 (by simpa using others),
      List.filter_eq_nil_iff.2 (by simpa using sorted.functions), List.append_nil, sorted.others]
  · intro name mem
    rw [List.filter_append, List.filter_eq_nil_iff.2 ?_, List.nil_append, sorted.stable name mem]
    intro e mem' named
    exact others e mem' ⟨name, mem, by simpa using named⟩

theorem order_congr {abi abi' : List Json}
    (declares : Declared contract legacyTree compactTree names)
    (others : abi.filter (fun e => ¬ IsDeclared names e) =
      abi'.filter fun e => ¬ IsDeclared names e)
    (functions : ∀ name ∈ names, abi.filter (Named name) = abi'.filter (Named name)) :
    order contract legacyTree compactTree abi = order contract legacyTree compactTree abi' := by
  rw [order_eq_grouped declares, order_eq_grouped declares, others, grouped_congr functions]

theorem order_contiguous (declares : Declared contract legacyTree compactTree names)
    {name : String} (mem : name ∈ names) :
    ∃ before behind, order contract legacyTree compactTree abi =
        before ++ abi.filter (Named name) ++ behind ∧
      ∀ e ∈ before ++ behind, ¬ Named name e := by
  obtain ⟨earlier, later, split⟩ := List.append_of_mem (List.mem_dedup.2 mem)
  have once := List.nodup_dedup names
  rw [split, List.nodup_middle, List.nodup_cons, List.mem_append, not_or] at once
  have apart {group : List String} (absent : name ∉ group) :
      ∀ e ∈ group.flatMap fun n => abi.filter fun e => Named n e, ¬ Named name e := by
    intro e mem named
    obtain ⟨n, inGroup, mem⟩ := List.mem_flatMap.1 mem
    have named' : Named n e := by simpa using List.of_mem_filter mem
    exact absent (Option.some.inj (named'.symm.trans named) ▸ inGroup)
  refine ⟨abi.filter (fun e => ¬ IsDeclared names e) ++
    earlier.flatMap fun n => abi.filter fun e => Named n e,
    later.flatMap fun n => abi.filter fun e => Named n e, ?_, ?_⟩
  · rw [order_eq_grouped declares, grouped, split]
    simp only [List.flatMap_append, List.flatMap_cons, List.append_assoc]
  · rw [List.forall_mem_append, List.forall_mem_append]
    refine ⟨⟨fun e other named => ?_, apart once.1.1⟩, apart once.1.2⟩
    have undeclared : ¬ IsDeclared names e := by simpa using List.of_mem_filter other
    exact undeclared ⟨name, mem, named⟩

/-- Ordering a second time changes nothing. What comes of two lists is the same if they agree on
the entries that are not declared and on those of each declared name, and the entries of one
declared name come together, in the order in which they were given. -/
theorem declaration_order_survives (contract : String) (legacyTree compactTree : Option Json) :
    ∃ declared : List String,
      (∀ names, Declared contract legacyTree compactTree names ↔ names = declared) ∧
      (∀ abi, order contract legacyTree compactTree (order contract legacyTree compactTree abi) =
        order contract legacyTree compactTree abi) ∧
      (∀ abi abi' : List Json,
        abi.filter (fun e => ¬ IsDeclared declared e) =
          abi'.filter (fun e => ¬ IsDeclared declared e) →
        (∀ name ∈ declared, abi.filter (Named name) = abi'.filter (Named name)) →
        order contract legacyTree compactTree abi = order contract legacyTree compactTree abi') ∧
      ∀ abi, ∀ name ∈ declared, ∃ before behind,
        order contract legacyTree compactTree abi =
          before ++ abi.filter (Named name) ++ behind ∧
        ∀ e ∈ before ++ behind, ¬ Named name e := by
  obtain ⟨declared, declares⟩ := exists_declared contract legacyTree compactTree
  refine ⟨declared, fun names => ⟨fun other => other.unique declares, fun eq => eq ▸ declares⟩,
    fun abi => ?_, fun abi abi' => order_congr declares, fun abi name => order_contiguous declares⟩
  exact order_congr declares (filter_order declares).1 (filter_order declares).2

def interleaved : Json :=
  let function (name : String) := Json.object
    [("name", .string "FunctionDefinition"), ("attributes", .object [("name", .string name)])]
  .object [("children", .array [.object
    [("name", .string "ContractDefinition"), ("attributes", .object [("name", .string "Token")]),
     ("children", .array [function "transfer", function "approve", function "transfer"])]])]

def entryOf (name : String) (inputs : List Json) : Json :=
  .object [("name", .string name), ("inputs", .array inputs)]

def alphabetic : List Json :=
  [entryOf "Transfer" [], entryOf "approve" [], entryOf "transfer" [], entryOf "transfer" [.null]]

def shuffled : List Json :=
  [entryOf "transfer" [], entryOf "Transfer" [], entryOf "transfer" [.null], entryOf "approve" []]

theorem declaration_order_survives_interleaved :
    let names := ["transfer", "approve", "transfer"]
    Declared "Token" (some interleaved) none names ∧
      alphabetic.filter (fun e => ¬ IsDeclared names e) =
        shuffled.filter (fun e => ¬ IsDeclared names e) ∧
      (∀ name ∈ names, alphabetic.filter (Named name) = shuffled.filter (Named name)) ∧
      order "Token" (some interleaved) none alphabetic =
        order "Token" (some interleaved) none shuffled ∧
      order "Token" (some interleaved) none shuffled = alphabetic := by
  have declares : Declared "Token" (some interleaved) none ["transfer", "approve", "transfer"] :=
    .legacy rfl (by decide +kernel) (Form.declares_iff.2 (by decide +kernel))
  have others : alphabetic.filter (fun e => ¬ IsDeclared ["transfer", "approve", "transfer"] e) =
      shuffled.filter fun e => ¬ IsDeclared ["transfer", "approve", "transfer"] e := by
    decide +kernel
  have functions : ∀ name ∈ ["transfer", "approve", "transfer"],
      alphabetic.filter (Named name) = shuffled.filter (Named name) := by decide +kernel
  obtain ⟨declared, unique, -, survives, -⟩ :=
    declaration_order_survives "Token" (some interleaved) none
  obtain rfl := (unique _).1 declares
  exact ⟨declares, others, functions, survives _ _ others functions,
    (order_eq_grouped declares).trans (by decide +kernel)⟩

end ContractBuild.DeclarationOrder
