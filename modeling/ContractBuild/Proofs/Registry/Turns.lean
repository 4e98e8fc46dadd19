import ContractBuild.Proofs.Registry.Transition

/-!
Turns at a version. From its second look at the table on, a caller has the turn at its version,
so no two callers are there for one version at the same time. A module that is put in from
outside comes without a turn; the statements leave it out where it could be in the way.
-/

namespace ContractBuild.Registry

variable {μ : Type} {setup : Setup} {s t : State μ} {a : Action μ}

def Stage.isFetching : Stage μ → Bool
  | .recheck | .inspect | .waiting _ | .confirm | .load => true
  | _ => false

def Stage.holdsTurn : Stage μ → Bool
  | .lookup | .queue | .done _ => false
  | _ => true

def Action.isInsert : Action μ → Bool
  | .insert _ _ => true
  | _ => false

def HaveTurn (stages : Stage μ → Bool) (s : State μ) : Prop :=
  ∀ ⦃c v stage⦄, s.callers[c]? = some ⟨v, stage⟩ → stages stage = true →
    Table.find? v s.turns = some c

def HaveTurnAmong (chosen : Nat → Version → Prop) (stages : Stage μ → Bool) (s : State μ) : Prop :=
  ∀ ⦃c v stage⦄, s.callers[c]? = some ⟨v, stage⟩ → chosen c v → stages stage = true →
    Table.find? v s.turns = some c

theorem haveTurn_iff_among {stages : Stage μ → Bool} :
    HaveTurn stages s ↔ HaveTurnAmong (fun _ _ => True) stages s :=
  ⟨fun have_turn _ _ _ here _ => have_turn here, fun have_turn _ _ _ here => have_turn here trivial⟩

theorem HaveTurnAmong.unique {chosen : Nat → Version → Prop} {stages : Stage μ → Bool}
    (have_turn : HaveTurnAmong chosen stages s) {c c' : Nat} {v : Version} {x y : Stage μ}
    (hc : s.callers[c]? = some ⟨v, x⟩) (own : chosen c v) (hx : stages x = true)
    (hc' : s.callers[c']? = some ⟨v, y⟩) (own' : chosen c' v) (hy : stages y = true) : c' = c := by
  have h := have_turn hc' own' hy
  rw [have_turn hc own hx] at h
  exact (Option.some.inj h).symm

theorem HaveTurn.unique {stages : Stage μ → Bool} (have_turn : HaveTurn stages s) {c c' : Nat}
    {v : Version} {x y : Stage μ} (hc : s.callers[c]? = some ⟨v, x⟩) (hx : stages x = true)
    (hc' : s.callers[c']? = some ⟨v, y⟩) (hy : stages y = true) : c' = c :=
  (haveTurn_iff_among.1 have_turn).unique hc trivial hx hc' trivial hy

theorem caller_of_set {c i : Nat} {x y z : Caller μ} (here : s.callers[c]? = some x)
    (moved : t.callers = s.callers.set c y) (h : t.callers[i]? = some z) :
    i = c ∧ z = y ∨ i ≠ c ∧ s.callers[i]? = some z := by
  have lt := (List.getElem?_eq_some_iff.1 here).1
  rw [moved, List.getElem?_set] at h
  by_cases eq : c = i
  · rw [if_pos eq, if_pos lt] at h
    exact .inl ⟨eq.symm, (Option.some.inj h).symm⟩
  · rw [if_neg eq] at h
    exact .inr ⟨fun h => eq h.symm, h⟩

theorem getElem?_callers_set {c : Nat} {x y : Caller μ} (here : s.callers[c]? = some x)
    (moved : t.callers = s.callers.set c y) : t.callers[c]? = some y := by
  rw [moved, List.getElem?_set_self (List.getElem?_eq_some_iff.1 here).1]

theorem getElem?_callers_set_ne {c i : Nat} {y : Caller μ} (ne : i ≠ c)
    (moved : t.callers = s.callers.set c y) : t.callers[i]? = s.callers[i]? := by
  rw [moved, List.getElem?_set_ne ne.symm]

theorem of_getElem?_concat {α : Type} {l : List α} {x z : α} {i : Nat}
    (h : (l ++ [x])[i]? = some z) : i = l.length ∧ z = x ∨ l[i]? = some z := by
  rcases Nat.lt_or_ge i l.length with lt | ge
  · rw [List.getElem?_append_left lt] at h
    exact .inr h
  · rw [List.getElem?_append_right ge, List.getElem?_singleton] at h
    split at h
    · exact .inl ⟨by omega, (Option.some.inj h).symm⟩
    · cases h

theorem caller_of_append {i : Nat} {x z : Caller μ} (came : t.callers = s.callers ++ [x])
    (h : t.callers[i]? = some z) : i = s.callers.length ∧ z = x ∨ s.callers[i]? = some z :=
  of_getElem?_concat (came ▸ h)

theorem callers_of_ne {c : Nat} {v w : Version} {x y : Stage μ}
    (here : s.callers[c]? = some ⟨w, x⟩) (moved : t.callers = s.callers.set c ⟨w, y⟩)
    (ne : v ≠ w) (i : Nat) (z : Stage μ) :
    t.callers[i]? = some ⟨v, z⟩ ↔ s.callers[i]? = some ⟨v, z⟩ := by
  by_cases eq : i = c
  · subst eq
    rw [getElem?_callers_set here moved, here]
    simp [ne.symm]
  · rw [getElem?_callers_set_ne eq moved]

theorem callers_of_append {v w : Version} {x : Stage μ} (came : t.callers = s.callers ++ [⟨w, x⟩])
    (ne : v ≠ w) (i : Nat) (z : Stage μ) :
    t.callers[i]? = some ⟨v, z⟩ ↔ s.callers[i]? = some ⟨v, z⟩ := by
  constructor
  · intro at_i
    rcases caller_of_append came at_i with ⟨-, eq⟩ | old
    · exact absurd (Caller.mk.inj eq).1 ne
    · exact old
  · intro at_i
    rw [came, List.getElem?_append_left (List.getElem?_eq_some_iff.1 at_i).1, at_i]

section

variable {chosen : Nat → Version → Prop} {stages : Stage μ → Bool} {c : Nat} {v : Version}
  {x y : Stage μ}

theorem HaveTurnAmong.of_set (inv : HaveTurnAmong chosen stages s)
    (here : s.callers[c]? = some ⟨v, x⟩) (moved : t.callers = s.callers.set c ⟨v, y⟩)
    (turns : t.turns = s.turns) (keeps : stages y = true → stages x = true) :
    HaveTurnAmong chosen stages t := by
  intro i w stage at_i own has
  rw [turns]
  rcases caller_of_set here moved at_i with ⟨rfl, eq⟩ | ⟨-, old⟩
  · cases eq
    exact inv here own (keeps has)
  · exact inv old own has

theorem HaveTurnAmong.of_append (inv : HaveTurnAmong chosen stages s)
    (came : t.callers = s.callers ++ [⟨v, x⟩]) (turns : t.turns = s.turns)
    (none : chosen s.callers.length v → stages x = false) : HaveTurnAmong chosen stages t := by
  intro i w stage at_i own has
  rw [turns]
  rcases caller_of_append came at_i with ⟨rfl, eq⟩ | old
  · cases eq
    rw [none own] at has
    cases has
  · exact inv old own has

theorem HaveTurnAmong.of_turn (inv : HaveTurnAmong chosen stages s)
    (here : s.callers[c]? = some ⟨v, x⟩) (free : Table.find? v s.turns = none)
    (moved : t.callers = s.callers.set c ⟨v, y⟩) (turns : t.turns = Table.put v c s.turns) :
    HaveTurnAmong chosen stages t := by
  intro i w stage at_i own has
  rw [turns]
  rcases caller_of_set here moved at_i with ⟨rfl, eq⟩ | ⟨-, old⟩
  · cases eq
    exact Table.find?_put_self ..
  · have turn := inv old own has
    -- the turn was free, so the other caller has it at another version
    have ne : w ≠ v := by
      intro eq
      subst eq
      rw [free] at turn
      cases turn
    rw [Table.find?_put_ne ne]
    exact turn

theorem HaveTurnAmong.of_leave (inv : HaveTurnAmong chosen stages s)
    (here : s.callers[c]? = some ⟨v, x⟩) (moved : t.callers = s.callers.set c ⟨v, y⟩)
    (turns : t.turns =
      if Table.find? v s.turns = some c then Table.remove v s.turns else s.turns)
    (none : stages y = false) : HaveTurnAmong chosen stages t := by
  intro i w stage at_i own has
  rw [turns]
  rcases caller_of_set here moved at_i with ⟨rfl, eq⟩ | ⟨other, old⟩
  · cases eq
    rw [none] at has
    cases has
  · have turn := inv old own has
    split
    · rename_i mine
      have ne : w ≠ v := by
        intro eq
        subst eq
        rw [mine] at turn
        exact other (Option.some.inj turn).symm
      rw [Table.find?_remove_ne ne]
      exact turn
    · exact turn

end

theorem Transition.fetching_haveTurn (h : Transition setup s a t)
    (inv : HaveTurn Stage.isFetching s) : HaveTurn Stage.isFetching t := by
  rw [haveTurn_iff_among] at inv ⊢
  cases h with
  | get v => exact inv.of_append rfl rfl fun _ => rfl
  | insert v m => exact inv.of_append rfl rfl fun _ => rfl
  | turn here free => exact inv.of_turn here free rfl rfl
  | leave here => exact inv.of_leave here rfl rfl rfl
  | hit here | miss here | hitBehind here | missBehind here | takeOver here | cached here
  | start here | unprepared here | offline here | installed here | failed here | orphaned here
  | confirmed here | vanished here | adoptFirst here | adoptLater here | publish here
  | giveUp here | loaded here | unloadable here =>
    exact inv.of_set here rfl rfl (by simp [Stage.isFetching])
  | write | unwritable | finish | die | settle | send => exact inv

theorem Transition.haveTurnAmong {chosen : Nat → Version → Prop} (h : Transition setup s a t)
    (outside : ∀ v m, a = .insert v m → ¬ chosen s.callers.length v)
    (inv : HaveTurnAmong chosen Stage.holdsTurn s) : HaveTurnAmong chosen Stage.holdsTurn t := by
  cases h with
  | get v => exact inv.of_append rfl rfl fun _ => rfl
  | insert v m => exact inv.of_append rfl rfl fun own => absurd own (outside v m rfl)
  | turn here free => exact inv.of_turn here free rfl rfl
  | leave here => exact inv.of_leave here rfl rfl rfl
  | hit here | miss here | hitBehind here | missBehind here | takeOver here | cached here
  | start here | unprepared here | offline here | installed here | failed here | orphaned here
  | confirmed here | vanished here | adoptFirst here | adoptLater here | publish here
  | giveUp here | loaded here | unloadable here =>
    exact inv.of_set here rfl rfl (by simp [Stage.holdsTurn])
  | write | unwritable | finish | die | settle | send => exact inv

theorem Transition.haveTurn (h : Transition setup s a t) (get : a.isInsert = false)
    (inv : HaveTurn Stage.holdsTurn s) : HaveTurn Stage.holdsTurn t := by
  rw [haveTurn_iff_among] at inv ⊢
  refine h.haveTurnAmong (fun v m eq => ?_) inv
  subst eq
  cases get

end ContractBuild.Registry
