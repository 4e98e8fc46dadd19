import ContractBuild.Proofs.Registry.Runs
import ContractBuild.Proofs.Table

/-!
# A registry at rest

When no call is under way, nobody has a turn, and the handlers have been uninstalled exactly if a
module is in the table. Turns are held by callers on their way, and between the handlers and the
table stands the caller that registers its module.
-/

namespace ContractBuild.Registry

variable {μ : Type} {setup : Setup} {s t : State μ} {a : Action μ} {c : Nat} {v : Version}
  {x y : Stage μ}

def State.Idle (s : State μ) : Prop := ∀ caller ∈ s.callers, ∃ result, caller.stage = .done result

def State.IdleAt (s : State μ) (v : Version) : Prop :=
  ∀ ⦃c : Nat⦄ ⦃x : Stage μ⦄, s.callers[c]? = some ⟨v, x⟩ → ∃ result, x = .done result

theorem State.Idle.idleAt (idle : s.Idle) (v : Version) : s.IdleAt v :=
  fun _ _ here => idle _ (List.mem_of_getElem? here)

/-- A turn is held by a caller of the version that has not returned. -/
def TurnsHeld (s : State μ) : Prop :=
  ∀ ⦃v c⦄, Table.find? v s.turns = some c →
    ∃ x : Stage μ, s.callers[c]? = some ⟨v, x⟩ ∧ x.holdsTurn = true

theorem TurnsHeld.of_set (inv : TurnsHeld s) (here : s.callers[c]? = some ⟨v, x⟩)
    (moved : t.callers = s.callers.set c ⟨v, y⟩) (turns : t.turns = s.turns)
    (keeps : x.holdsTurn = true → y.holdsTurn = true) : TurnsHeld t := by
  intro w i held
  rw [turns] at held
  obtain ⟨z, at_i, holds⟩ := inv held
  by_cases eq : i = c
  · subst eq
    rw [here] at at_i
    cases at_i
    exact ⟨y, getElem?_callers_set here moved, keeps holds⟩
  · exact ⟨z, (getElem?_callers_set_ne eq moved).trans at_i, holds⟩

theorem TurnsHeld.of_append (inv : TurnsHeld s) (came : t.callers = s.callers ++ [⟨v, x⟩])
    (turns : t.turns = s.turns) : TurnsHeld t := by
  intro w i held
  rw [turns] at held
  obtain ⟨z, at_i, holds⟩ := inv held
  refine ⟨z, ?_, holds⟩
  rw [came, List.getElem?_append_left (List.getElem?_eq_some_iff.1 at_i).1, at_i]

theorem TurnsHeld.of_turn (inv : TurnsHeld s) (here : s.callers[c]? = some ⟨v, .queue⟩)
    (moved : t.callers = s.callers.set c ⟨v, .recheck⟩) (turns : t.turns = Table.put v c s.turns) :
    TurnsHeld t := by
  intro w i held
  rw [turns] at held
  by_cases same : w = v
  · subst same
    rw [Table.find?_put_self, Option.some.injEq] at held
    subst held
    exact ⟨.recheck, getElem?_callers_set here moved, rfl⟩
  · rw [Table.find?_put_ne same] at held
    obtain ⟨z, at_i, holds⟩ := inv held
    have other : i ≠ c := by
      intro eq
      subst eq
      rw [here] at at_i
      cases at_i
      exact same rfl
    exact ⟨z, (getElem?_callers_set_ne other moved).trans at_i, holds⟩

theorem TurnsHeld.of_leave (inv : TurnsHeld s) (here : s.callers[c]? = some ⟨v, x⟩)
    (moved : t.callers = s.callers.set c ⟨v, y⟩)
    (turns : t.turns =
      if Table.find? v s.turns = some c then Table.remove v s.turns else s.turns) :
    TurnsHeld t := by
  have kept {w : Version} {i : Nat} (held : Table.find? w s.turns = some i) (other : i ≠ c) :
      ∃ z, t.callers[i]? = some ⟨w, z⟩ ∧ z.holdsTurn = true := by
    obtain ⟨z, at_i, holds⟩ := inv held
    exact ⟨z, (getElem?_callers_set_ne other moved).trans at_i, holds⟩
  intro w i held
  rw [turns] at held
  split at held
  · rename_i mine
    by_cases same : w = v
    · subst same
      rw [Table.find?_remove_self] at held
      cases held
    · rw [Table.find?_remove_ne same] at held
      refine kept held ?_
      rintro rfl
      obtain ⟨z, at_i, -⟩ := inv held
      rw [here] at at_i
      cases at_i
      exact same rfl
  · rename_i not_mine
    refine kept held ?_
    rintro rfl
    obtain ⟨z, at_i, -⟩ := inv held
    rw [here] at at_i
    cases at_i
    exact not_mine held

theorem Transition.turnsHeld (h : Transition setup s a t) (inv : TurnsHeld s) : TurnsHeld t := by
  cases h with
  | get | insert => exact inv.of_append rfl rfl
  | turn here => exact inv.of_turn here rfl rfl
  | leave here => exact inv.of_leave here rfl rfl
  | hit here | miss here | hitBehind here | missBehind here | takeOver here | cached here
  | start here | unprepared here | offline here | installed here | failed here | orphaned here
  | confirmed here | vanished here | adoptFirst here | adoptLater here | publish here
  | giveUp here | loaded here | unloadable here =>
    exact inv.of_set here rfl rfl (by simp [Stage.holdsTurn])
  | write | unwritable | finish | die | settle | send => exact inv

def State.Begun (s : State μ) : Prop :=
  s.modules ≠ [] ∨ ∃ (c : Nat) (v : Version) (m : μ), s.callers[c]? = some ⟨v, .publish m⟩

structure Registered (s : State μ) : Prop where
  distinct : Table.Distinct s.modules
  adopted : s.adopted = true ↔ s.Begun

theorem begun_of_set (here : s.callers[c]? = some ⟨v, x⟩)
    (moved : t.callers = s.callers.set c ⟨v, y⟩) (modules : t.modules = s.modules)
    (before : ∀ m, x ≠ .publish m) (behind : ∀ m, y ≠ .publish m) : t.Begun ↔ s.Begun := by
  rw [State.Begun, State.Begun, modules]
  refine or_congr_right ⟨?_, ?_⟩
  · rintro ⟨i, w, m, at_i⟩
    rcases caller_of_set here moved at_i with ⟨-, eq⟩ | ⟨-, old⟩
    · exact absurd (Caller.mk.inj eq).2.symm (behind m)
    · exact ⟨i, w, m, old⟩
  · rintro ⟨i, w, m, at_i⟩
    have other : i ≠ c := by
      rintro rfl
      rw [here] at at_i
      exact before m (Caller.mk.inj (Option.some.inj at_i)).2
    exact ⟨i, w, m, (getElem?_callers_set_ne other moved).trans at_i⟩

theorem begun_of_append (came : t.callers = s.callers ++ [⟨v, x⟩])
    (modules : t.modules = s.modules) (other : ∀ m, x ≠ .publish m) : t.Begun ↔ s.Begun := by
  rw [State.Begun, State.Begun, modules]
  refine or_congr_right ⟨?_, ?_⟩
  · rintro ⟨i, w, m, at_i⟩
    rcases caller_of_append came at_i with ⟨-, eq⟩ | old
    · exact absurd (Caller.mk.inj eq).2.symm (other m)
    · exact ⟨i, w, m, old⟩
  · rintro ⟨i, w, m, at_i⟩
    refine ⟨i, w, m, ?_⟩
    rw [came, List.getElem?_append_left (List.getElem?_eq_some_iff.1 at_i).1, at_i]

theorem Registered.of_begun (inv : Registered s) (modules : t.modules = s.modules)
    (adopted : t.adopted = s.adopted) (begun : t.Begun ↔ s.Begun) : Registered t where
  distinct := modules ▸ inv.distinct
  adopted := by rw [adopted, begun, inv.adopted]

theorem Transition.registered (h : Transition setup s a t) (inv : Registered s) :
    Registered t := by
  cases h with
  | get | insert => exact inv.of_begun rfl rfl (begun_of_append rfl rfl nofun)
  | adoptFirst here =>
    exact ⟨inv.distinct, iff_of_true rfl (.inr ⟨_, _, _, getElem?_callers_set here rfl⟩)⟩
  | adoptLater here later =>
    exact ⟨inv.distinct, iff_of_true later (.inr ⟨_, _, _, getElem?_callers_set here rfl⟩)⟩
  | @publish c v m here =>
    refine ⟨inv.distinct.put m, iff_of_true (inv.adopted.2 (.inr ⟨c, v, m, here⟩)) (.inl ?_)⟩
    intro empty
    have found := Table.find?_put_self v m s.modules
    rw [show Table.put v m s.modules = [] from empty] at found
    cases found
  | hit here | miss here | turn here | hitBehind here | missBehind here | takeOver here
  | cached here | start here | unprepared here | offline here | installed here | failed here
  | orphaned here | confirmed here | vanished here | leave here | giveUp here | loaded here
  | unloadable here =>
    exact inv.of_begun rfl rfl (begun_of_set here rfl rfl (by nofun) (by nofun))
  | write | unwritable | finish | die | settle | send => exact inv.of_begun rfl rfl .rfl

structure Standing (s : State μ) : Prop where
  turns : TurnsHeld s
  registered : Registered s
  fetching : HaveTurn Stage.isFetching s
  owned : Owned s

theorem Standing.start (files : FileTree) : Standing (State.start files : State μ) where
  turns := by
    intro v c held
    cases held
  registered := by
    refine ⟨List.nodup_nil, iff_of_false nofun ?_⟩
    rintro (filled | ⟨c, v, m, at_c⟩)
    · exact filled rfl
    · simp [State.start] at at_c
  fetching := by
    intro c v stage h
    simp [State.start] at h
  owned := .start files

theorem Transition.standing (h : Transition setup s a t) (inv : Standing s) : Standing t where
  turns := h.turnsHeld inv.turns
  registered := h.registered inv.registered
  fetching := h.fetching_haveTurn inv.fetching
  owned := h.owned inv.fetching inv.owned

theorem Standing.of_run {actions : List (Action μ)} (inv : Standing s)
    (run : runActions setup s actions = some t) : Standing t :=
  runActions_induction (P := fun _ s => Standing s) (Q := fun _ => True) inv
    (fun _ _ _ _ _ inv _ moved => moved.standing inv) (fun _ _ => trivial) run

theorem State.IdleAt.free (idle : s.IdleAt v) (inv : TurnsHeld s) :
    Table.find? v s.turns = none := by
  cases held : Table.find? v s.turns with
  | none => rfl
  | some c =>
    obtain ⟨x, at_c, holds⟩ := inv held
    obtain ⟨result, rfl⟩ := idle at_c
    cases holds

theorem State.Idle.adopted (idle : s.Idle) (inv : Registered s) :
    s.adopted = !s.modules.isEmpty := by
  have begun : s.Begun ↔ s.modules ≠ [] := by
    refine or_iff_left ?_
    rintro ⟨c, v, m, at_c⟩
    obtain ⟨result, eq⟩ := idle.idleAt v at_c
    cases eq
  rw [Bool.eq_iff_iff, inv.adopted, begun]
  simp

end ContractBuild.Registry
