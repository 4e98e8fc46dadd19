import ContractBuild.Proofs.Registry.Turns

/-!
What the loader made and what the table holds. While nothing is put in from outside, a version
has at most one module: the table is empty at the version until the one caller that loaded it
has registered its module, and every caller that leaves with a module leaves with that one.
-/

namespace ContractBuild.Registry

variable {μ : Type} {setup : Setup} {s t : State μ} {a : Action μ}

def Mark.load? (v : Version) : Mark μ → Option μ
  | .loaded w (.ok m) => if w = v then some m else none
  | _ => none

def State.loads (s : State μ) (v : Version) : List μ := s.history.filterMap (Mark.load? v)

def Stage.made? : Stage μ → Option (List μ)
  | .inspect | .waiting _ | .confirm | .load => some []
  | .adopt m | .publish m => some [m]
  | _ => none

def Stage.registers? : Stage μ → Option μ
  | .adopt m | .publish m => some m
  | _ => none

def Stage.answer? : Stage μ → Option μ
  | .leave (.ok m) | .done (.ok m) => some m
  | _ => none

structure LoadedOnce (s : State μ) : Prop where
  kept : ∀ ⦃v m⦄, s.module? v = some m → s.loads v = [m]
  made : ∀ ⦃c : Nat⦄ ⦃v⦄ ⦃stage : Stage μ⦄ ⦃l⦄, s.callers[c]? = some ⟨v, stage⟩ →
    stage.made? = some l → s.loads v = l ∧ s.module? v = none
  registered : ∀ ⦃v⦄, s.module? v = none → s.loads v ≠ [] →
    ∃ (c : Nat) (stage : Stage μ) (m : μ),
      s.callers[c]? = some ⟨v, stage⟩ ∧ stage.registers? = some m
  answered : ∀ ⦃c : Nat⦄ ⦃v⦄ ⦃stage : Stage μ⦄ ⦃m⦄, s.callers[c]? = some ⟨v, stage⟩ →
    stage.answer? = some m → s.module? v = some m

theorem Stage.holdsTurn_of_registers {stage : Stage μ} {m : μ} (h : stage.registers? = some m) :
    stage.holdsTurn = true := by
  cases stage <;> first | rfl | cases h

theorem Stage.holdsTurn_of_made {stage : Stage μ} {l : List μ} (h : stage.made? = some l) :
    stage.holdsTurn = true := by
  cases stage <;> first | rfl | cases h

theorem LoadedOnce.start (files : FileTree) : LoadedOnce (State.start files : State μ) where
  kept := by
    intro v m h
    cases h
  made := by
    intro c v stage l h
    simp [State.start] at h
  registered := by
    intro v _ h
    exact absurd rfl h
  answered := by
    intro c v stage m h
    simp [State.start] at h

theorem LoadedOnce.loads_length_le (inv : LoadedOnce s) (v : Version) : (s.loads v).length ≤ 1 := by
  cases found : s.module? v with
  | some m =>
    rw [inv.kept found]
    exact Nat.le_refl 1
  | none =>
    by_cases some_made : s.loads v = []
    · rw [some_made]
      exact Nat.zero_le 1
    · obtain ⟨c, stage, m, here, registers⟩ := inv.registered found some_made
      have made : stage.made? = some [m] := by
        cases stage <;> first | exact registers | cases registers <;> rfl
      rw [(inv.made here made).1]
      exact Nat.le_refl 1

section

variable {c : Nat} {v : Version} {x y : Stage μ}

theorem LoadedOnce.of_set (inv : LoadedOnce s) (here : s.callers[c]? = some ⟨v, x⟩)
    (moved : t.callers = s.callers.set c ⟨v, y⟩) (modules : t.modules = s.modules)
    (loads : ∀ w, t.loads w = s.loads w)
    (made : ∀ l, y.made? = some l → s.loads v = l ∧ s.module? v = none)
    (registers : ∀ m, x.registers? = some m → y.registers? = some m)
    (answers : ∀ m, y.answer? = some m → s.module? v = some m) : LoadedOnce t := by
  have same (w : Version) : t.module? w = s.module? w := by
    rw [State.module?, modules, State.module?]
  refine ⟨?_, ?_, ?_, ?_⟩
  · intro w m found
    rw [loads]
    exact inv.kept (same w ▸ found)
  · intro i w stage l at_i h
    rw [loads, same]
    rcases caller_of_set here moved at_i with ⟨rfl, eq⟩ | ⟨-, old⟩
    · cases eq
      exact made l h
    · exact inv.made old h
  · intro w none some_made
    rw [same] at none
    rw [loads] at some_made
    obtain ⟨i, stage, m, at_i, h⟩ := inv.registered none some_made
    by_cases eq : i = c
    · subst eq
      rw [here] at at_i
      cases at_i
      exact ⟨i, y, m, getElem?_callers_set here moved, registers m h⟩
    · exact ⟨i, stage, m, (getElem?_callers_set_ne eq moved).trans at_i, h⟩
  · intro i w stage m at_i h
    rw [same]
    rcases caller_of_set here moved at_i with ⟨rfl, eq⟩ | ⟨-, old⟩
    · cases eq
      exact answers m h
    · exact inv.answered old h

theorem LoadedOnce.of_append (inv : LoadedOnce s)
    (came : t.callers = s.callers ++ [⟨v, .lookup⟩]) (modules : t.modules = s.modules)
    (loads : ∀ w, t.loads w = s.loads w) : LoadedOnce t := by
  have same (w : Version) : t.module? w = s.module? w := by
    rw [State.module?, modules, State.module?]
  refine ⟨?_, ?_, ?_, ?_⟩
  · intro w m found
    rw [loads]
    exact inv.kept (same w ▸ found)
  · intro i w stage l at_i h
    rw [loads, same]
    rcases caller_of_append came at_i with ⟨-, eq⟩ | old
    · cases eq
      cases h
    · exact inv.made old h
  · intro w none some_made
    rw [same] at none
    rw [loads] at some_made
    obtain ⟨i, stage, m, at_i, h⟩ := inv.registered none some_made
    have lt := (List.getElem?_eq_some_iff.1 at_i).1
    refine ⟨i, stage, m, ?_, h⟩
    rw [came, List.getElem?_append_left lt, at_i]
  · intro i w stage m at_i h
    rw [same]
    rcases caller_of_append came at_i with ⟨-, eq⟩ | old
    · cases eq
      cases h
    · exact inv.answered old h

theorem LoadedOnce.loads_eq_nil (inv : LoadedOnce s) (turns : HaveTurn Stage.holdsTurn s)
    (here : s.callers[c]? = some ⟨v, x⟩) (turn : x.holdsTurn = true)
    (other : x.registers? = none) (absent : s.module? v = none) : s.loads v = [] := by
  by_cases some_made : s.loads v = []
  · exact some_made
  · obtain ⟨i, stage, m, at_i, h⟩ := inv.registered absent some_made
    have eq := turns.unique here turn at_i (Stage.holdsTurn_of_registers h)
    subst eq
    rw [here] at at_i
    cases at_i
    rw [other] at h
    cases h

theorem LoadedOnce.of_move (inv : LoadedOnce s) (here : s.callers[c]? = some ⟨v, x⟩)
    (moved : t.callers = s.callers.set c ⟨v, y⟩)
    (elsewhere : ∀ w, w ≠ v → t.module? w = s.module? w ∧ t.loads w = s.loads w)
    (kept : ∀ m, t.module? v = some m → t.loads v = [m])
    (made : ∀ (i : Nat) stage l, t.callers[i]? = some ⟨v, stage⟩ → stage.made? = some l →
      t.loads v = l ∧ t.module? v = none)
    (registered : t.module? v = none → ∃ (i : Nat) (stage : Stage μ) (m : μ),
      t.callers[i]? = some ⟨v, stage⟩ ∧ stage.registers? = some m)
    (answered : ∀ (i : Nat) stage m, t.callers[i]? = some ⟨v, stage⟩ → stage.answer? = some m →
      t.module? v = some m) : LoadedOnce t := by
  have callers {w : Version} (ne : w ≠ v) := callers_of_ne here moved ne
  refine ⟨fun w m found => ?_, fun i w stage l at_i h => ?_, fun w absent some_made => ?_,
    fun i w stage m at_i h => ?_⟩
  · by_cases eq : w = v
    · rw [eq] at found ⊢
      exact kept m found
    · rw [(elsewhere w eq).1] at found
      rw [(elsewhere w eq).2]
      exact inv.kept found
  · by_cases eq : w = v
    · rw [eq] at at_i ⊢
      exact made i stage l at_i h
    · rw [(elsewhere w eq).1, (elsewhere w eq).2]
      exact inv.made ((callers eq i stage).1 at_i) h
  · by_cases eq : w = v
    · rw [eq] at absent ⊢
      exact registered absent
    · rw [(elsewhere w eq).1] at absent
      rw [(elsewhere w eq).2] at some_made
      obtain ⟨i, stage, m, at_i, h⟩ := inv.registered absent some_made
      exact ⟨i, stage, m, (callers eq i stage).2 at_i, h⟩
  · by_cases eq : w = v
    · rw [eq] at at_i ⊢
      exact answered i stage m at_i h
    · rw [(elsewhere w eq).1]
      exact inv.answered ((callers eq i stage).1 at_i) h

theorem LoadedOnce.of_load {m : μ} (inv : LoadedOnce s) (turns : HaveTurn Stage.holdsTurn s)
    (here : s.callers[c]? = some ⟨v, .load⟩) (moved : t.callers = s.callers.set c ⟨v, .adopt m⟩)
    (modules : t.modules = s.modules)
    (loads : ∀ w, t.loads w = s.loads w ++ if v = w then [m] else []) : LoadedOnce t := by
  have same (w : Version) : t.module? w = s.module? w := by
    rw [State.module?, modules, State.module?]
  have at_load := inv.made here rfl
  refine inv.of_move here moved (fun w ne => ⟨same w, ?elsewhere⟩) (fun n found => ?kept)
    (fun i stage l at_i h => ?made)
    (fun _ => ⟨c, .adopt m, m, getElem?_callers_set here moved, rfl⟩)
    (fun i stage n at_i h => ?answered)
  case elsewhere => rw [loads, if_neg ne.symm, List.append_nil]
  case kept =>
    rw [same, at_load.2] at found
    cases found
  case made =>
    rcases caller_of_set here moved at_i with ⟨rfl, eq⟩ | ⟨other, old⟩
    · cases eq
      cases h
      exact ⟨by rw [loads, at_load.1, if_pos rfl, List.nil_append], (same v).trans at_load.2⟩
    · exact absurd (turns.unique here rfl old (Stage.holdsTurn_of_made h)) other
  case answered =>
    rcases caller_of_set here moved at_i with ⟨rfl, eq⟩ | ⟨-, old⟩
    · cases eq
      cases h
    · rw [same]
      exact inv.answered old h

theorem LoadedOnce.of_publish {m : μ} (inv : LoadedOnce s) (turns : HaveTurn Stage.holdsTurn s)
    (here : s.callers[c]? = some ⟨v, .publish m⟩)
    (moved : t.callers = s.callers.set c ⟨v, .leave (.ok m)⟩)
    (modules : t.modules = Table.put v m s.modules) (loads : ∀ w, t.loads w = s.loads w) :
    LoadedOnce t := by
  have at_publish := inv.made here rfl
  have at_leave : t.module? v = some m := by
    rw [State.module?, modules, Table.find?_put_self]
  refine inv.of_move here moved (fun w ne => ⟨?elsewhere, loads w⟩) (fun n found => ?kept)
    (fun i stage l at_i h => ?made) (fun absent => ?registered)
    (fun i stage n at_i h => ?answered)
  case elsewhere => rw [State.module?, modules, Table.find?_put_ne ne, State.module?]
  case kept =>
    rw [at_leave] at found
    cases found
    rw [loads]
    exact at_publish.1
  case made =>
    rcases caller_of_set here moved at_i with ⟨rfl, eq⟩ | ⟨other, old⟩
    · cases eq
      cases h
    · exact absurd (turns.unique here rfl old (Stage.holdsTurn_of_made h)) other
  case registered =>
    rw [at_leave] at absent
    cases absent
  case answered =>
    rcases caller_of_set here moved at_i with ⟨rfl, eq⟩ | ⟨-, old⟩
    · cases eq
      cases h
      exact at_leave
    · have found := inv.answered old h
      rw [at_publish.2] at found
      cases found

end

theorem State.loads_mark (s : State μ) (mark : Mark μ) (v : Version) :
    (s.mark mark).loads v = s.loads v ++ (mark.load? v).toList := by
  simp only [State.loads, State.mark, List.filterMap_append, List.filterMap_cons,
    List.filterMap_nil]
  cases mark.load? v <;> rfl

theorem State.loads_mark_of_none (s : State μ) {mark : Mark μ} (v : Version)
    (none : mark.load? v = none) : (s.mark mark).loads v = s.loads v := by
  rw [State.loads_mark, none, Option.toList_none, List.append_nil]

theorem State.loads_report (s : State μ) (e : Event) (v : Version) :
    (s.report e).loads v = s.loads v :=
  s.loads_mark_of_none v rfl

theorem Transition.loadedOnce (h : Transition setup s a t) (get : a.isInsert = false)
    (turns : HaveTurn Stage.holdsTurn s) (inv : LoadedOnce s) : LoadedOnce t := by
  cases h with
  | get v => exact inv.of_append rfl rfl fun _ => rfl
  | insert v m => cases get
  | missBehind here absent =>
    have nothing := inv.loads_eq_nil turns here rfl rfl absent
    refine inv.of_set here rfl rfl (fun _ => rfl) ?_ nofun nofun
    intro l made
    cases made
    exact ⟨nothing, absent⟩
  | @loaded c v m here =>
    refine inv.of_load (m := m) turns here rfl rfl fun w => ?_
    refine (State.loads_mark s _ w).trans ?_
    by_cases eq : v = w <;> simp [Mark.load?, eq]
  | publish here => exact inv.of_publish turns here rfl rfl fun _ => rfl
  | hit here found | hitBehind here found =>
    refine inv.of_set here rfl rfl (fun _ => rfl) nofun nofun ?_
    intro m answer
    cases answer
    exact found
  | @leave c v result here =>
    refine inv.of_set here rfl rfl (fun _ => rfl) nofun nofun ?_
    intro m answer
    cases result with
    | ok n => exact inv.answered here answer
    | error failure => cases answer
  | miss here | turn here => exact inv.of_set here rfl rfl (fun _ => rfl) nofun nofun nofun
  | takeOver here | cached here | confirmed here | adoptLater here =>
    exact inv.of_set here rfl rfl (fun _ => rfl) (fun l made => inv.made here made)
      (fun m h => h) nofun
  | unprepared here | offline here | vanished here =>
    exact inv.of_set here rfl rfl (fun _ => rfl) nofun nofun nofun
  | start here | installed here =>
    exact inv.of_set here rfl rfl (fun w => State.loads_report _ _ w)
      (fun l made => inv.made here made) nofun nofun
  | failed here | orphaned here | giveUp here =>
    exact inv.of_set here rfl rfl (fun w => State.loads_report _ _ w) nofun nofun nofun
  | adoptFirst here =>
    exact inv.of_set here rfl rfl (fun w => State.loads_mark_of_none _ w rfl)
      (fun l made => inv.made here made) (fun m h => h) nofun
  | unloadable here =>
    exact inv.of_set here rfl rfl (fun w => State.loads_mark_of_none _ w rfl) nofun nofun nofun
  | write | unwritable | finish | die | settle | send =>
    exact ⟨inv.kept, inv.made, inv.registered, inv.answered⟩

end ContractBuild.Registry
