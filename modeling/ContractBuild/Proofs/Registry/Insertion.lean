import ContractBuild.Proofs.Registry.Runs

/-!
# Modules that are put in from outside

A module that is put in comes without a turn, so it may come between the second look of a caller
and the registration of what this caller loads. At most one caller of the version is there, and only
this one can take the place of the module again. Whoever asks after it came into the table is
answered at once, with this module unless that one caller has registered another.
-/

namespace ContractBuild.Registry

variable {μ : Type} {setup : Setup} {s t u : State μ} {a : Action μ} {v w : Version} {m n : μ}

/-- Behind a second look that found nothing, and not yet registered. -/
def Stage.isCommitted : Stage μ → Bool
  | .inspect | .waiting _ | .confirm | .load | .adopt _ | .publish _ => true
  | _ => false

def Stage.isOver : Stage μ → Bool
  | .leave _ | .done _ => true
  | _ => false

theorem Stage.holdsTurn_of_committed {x : Stage μ} (h : x.isCommitted = true) :
    x.holdsTurn = true := by
  cases x <;> first | rfl | cases h

theorem Stage.answer?_of_committed {x : Stage μ} (h : x.isCommitted = true) :
    x.answer? = none := by
  cases x <;> first | rfl | cases h

def State.Answers (s : State μ) (c : Nat) (v : Version) (m : μ) : Prop :=
  ∃ x, s.callers[c]? = some ⟨v, x⟩ ∧ x.answer? = some m

/-- Another caller than `i` is committed to a module of its own. -/
def State.Overtakes (s : State μ) (v : Version) (i c : Nat) : Prop :=
  c ≠ i ∧ ∃ x, s.callers[c]? = some ⟨v, x⟩ ∧ x.isCommitted = true

def Spares (v : Version) (a : Action μ) : Prop := ∀ n, a ≠ .insert v n

def Others (v : Version) (i : Nat) (c : Nat) (w : Version) : Prop := w = v ∧ c ≠ i

theorem haveTurnAmong_of_run {i : Nat} {actions : List (Action μ)}
    (inv : HaveTurnAmong (Others v i) Stage.holdsTurn s) (spare : ∀ a ∈ actions, Spares v a)
    (run : runActions setup s actions = some t) :
    HaveTurnAmong (Others v i) Stage.holdsTurn t := by
  refine runActions_induction (P := fun _ s => HaveTurnAmong (Others v i) Stage.holdsTurn s) inv
    (fun _ a _ _ _ inv spare moved => moved.haveTurnAmong (fun w n eq own => ?_) inv) spare run
  exact spare n (own.1 ▸ eq)

theorem haveTurnAmong_of_insert {i : Nat} (inv : HaveTurnAmong (Others v i) Stage.holdsTurn s)
    (length : s.callers.length = i) (moved : step setup s (.insert v m) = some t) :
    HaveTurnAmong (Others v i) Stage.holdsTurn t :=
  (transition_of_step moved).haveTurnAmong (fun _ _ _ own => own.2 length) inv

theorem overtakes_unique {i c c' : Nat} (turns : HaveTurnAmong (Others v i) Stage.holdsTurn s)
    (first : s.Overtakes v i c) (second : s.Overtakes v i c') : c' = c := by
  obtain ⟨ne, x, here, committed⟩ := first
  obtain ⟨ne', x', here', committed'⟩ := second
  exact turns.unique here ⟨rfl, ne⟩ (Stage.holdsTurn_of_committed committed) here' ⟨rfl, ne'⟩
    (Stage.holdsTurn_of_committed committed')

/-- Only callers that are late can have taken the place of the module. -/
structure Inserted (v : Version) (m : μ) (late : Nat → Prop) (s : State μ) : Prop where
  kept : ∃ n, s.module? v = some n ∧ (n = m ∨ ∃ c, late c ∧ s.Answers c v n)
  answered : ∀ ⦃c n⦄, late c → s.Answers c v n → s.module? v = some n
  committed : ∀ ⦃c : Nat⦄ ⦃x : Stage μ⦄, s.callers[c]? = some ⟨v, x⟩ → x.isCommitted = true → late c
  beyond : ∀ ⦃c⦄, late c → ∃ x : Stage μ, s.callers[c]? = some ⟨v, x⟩ ∧
    (x.isCommitted = true ∨ x.isOver = true)

section

variable {late : Nat → Prop} {c : Nat} {x y : Stage μ}

theorem Inserted.of_set (inv : Inserted v m late s) (here : s.callers[c]? = some ⟨w, x⟩)
    (moved : t.callers = s.callers.set c ⟨w, y⟩) (same : t.module? v = s.module? v)
    (committed : w = v → y.isCommitted = true → x.isCommitted = true)
    (beyond : w = v → x.isCommitted = true ∨ x.isOver = true →
      (y.isCommitted = true ∨ y.isOver = true) ∧ y.answer? = x.answer?) : Inserted v m late t := by
  have moves : late c → w = v ∧ (y.isCommitted = true ∨ y.isOver = true) ∧
      y.answer? = x.answer? := by
    intro own
    obtain ⟨_, at_c, stage⟩ := inv.beyond own
    rw [here] at at_c
    cases at_c
    exact ⟨rfl, beyond rfl stage⟩
  have at_c := getElem?_callers_set here moved
  have answers_iff {i : Nat} {n : μ} (own : late i) : t.Answers i v n ↔ s.Answers i v n := by
    by_cases eq : i = c
    · subst eq
      obtain ⟨rfl, -, answer⟩ := moves own
      simp only [State.Answers, at_c, here, Option.some.injEq, Caller.mk.injEq, true_and,
        exists_eq_left', answer]
    · simp only [State.Answers, getElem?_callers_set_ne eq moved]
  obtain ⟨n, found, source⟩ := inv.kept
  refine ⟨⟨n, same.trans found, source.imp_right fun ⟨i, own, answers⟩ =>
    ⟨i, own, (answers_iff own).2 answers⟩⟩, ?_, ?_, ?_⟩
  · intro i n own answers
    rw [same]
    exact inv.answered own ((answers_iff own).1 answers)
  · intro i z at_i stage
    rcases caller_of_set here moved at_i with ⟨rfl, eq⟩ | ⟨-, old⟩
    · cases eq
      exact inv.committed here (committed rfl stage)
    · exact inv.committed old stage
  · intro i own
    by_cases eq : i = c
    · subst eq
      obtain ⟨rfl, stage, -⟩ := moves own
      exact ⟨y, at_c, stage⟩
    · rw [getElem?_callers_set_ne eq moved]
      exact inv.beyond own

theorem Inserted.of_append (inv : Inserted v m late s)
    (came : t.callers = s.callers ++ [⟨w, x⟩]) (same : t.module? v = s.module? v)
    (fresh : w = v → x.isCommitted = false) : Inserted v m late t := by
  have old {i : Nat} (own : late i) : t.callers[i]? = s.callers[i]? := by
    obtain ⟨_, at_i, -⟩ := inv.beyond own
    rw [came, List.getElem?_append_left (List.getElem?_eq_some_iff.1 at_i).1]
  have answers_iff {i : Nat} {n : μ} (own : late i) : t.Answers i v n ↔ s.Answers i v n := by
    simp only [State.Answers, old own]
  obtain ⟨n, found, source⟩ := inv.kept
  refine ⟨⟨n, same.trans found, source.imp_right fun ⟨i, own, answers⟩ =>
    ⟨i, own, (answers_iff own).2 answers⟩⟩, ?_, ?_, ?_⟩
  · intro i n own answers
    rw [same]
    exact inv.answered own ((answers_iff own).1 answers)
  · intro i z at_i stage
    rcases caller_of_append came at_i with ⟨-, eq⟩ | before
    · cases eq
      rw [fresh rfl] at stage
      cases stage
    · exact inv.committed before stage
  · intro i own
    rw [old own]
    exact inv.beyond own

theorem Inserted.of_publish (inv : Inserted v m late s)
    (unique : ∀ c c', late c → late c' → c' = c) (here : s.callers[c]? = some ⟨v, .publish n⟩)
    (moved : t.callers = s.callers.set c ⟨v, .leave (.ok n)⟩) (found : t.module? v = some n) :
    Inserted v m late t := by
  have own : late c := inv.committed here rfl
  have at_c := getElem?_callers_set here moved
  refine ⟨⟨n, found, .inr ⟨c, own, _, at_c, rfl⟩⟩, ?_, ?_, ?_⟩
  · intro i k own' ⟨z, at_i, answer⟩
    obtain rfl := unique c i own own'
    rw [at_c] at at_i
    cases at_i
    cases answer
    exact found
  · intro i z at_i stage
    rcases caller_of_set here moved at_i with ⟨-, eq⟩ | ⟨-, old⟩
    · cases eq
      cases stage
    · exact inv.committed old stage
  · intro i own'
    obtain rfl := unique c i own own'
    exact ⟨_, at_c, .inr rfl⟩

end

theorem Transition.inserted {late : Nat → Prop} (h : Transition setup s a t)
    (unique : ∀ c c', late c → late c' → c' = c) (spare : Spares v a)
    (inv : Inserted v m late s) : Inserted v m late t := by
  cases h with
  | get w => exact inv.of_append rfl rfl fun _ => rfl
  | insert w n =>
    refine inv.of_append rfl rfl fun eq => ?_
    subst eq
    exact absurd rfl (spare n)
  | missBehind here absent =>
    refine inv.of_set here rfl rfl (fun eq _ => ?_) (by simp [Stage.isCommitted, Stage.isOver])
    -- the version has a module, so nobody misses it
    obtain ⟨n, found, -⟩ := inv.kept
    rw [← eq, absent] at found
    cases found
  | @publish c w n here =>
    by_cases eq : w = v
    · subst eq
      exact inv.of_publish unique here rfl (Table.find?_put_self ..)
    · exact inv.of_set here rfl (Table.find?_put_ne (Ne.symm eq) ..)
        (fun same => absurd same eq) fun same => absurd same eq
  | @leave c w result here =>
    exact inv.of_set here rfl rfl nofun fun _ _ => ⟨.inr rfl, by cases result <;> rfl⟩
  | hit here | miss here | turn here | hitBehind here =>
    exact inv.of_set here rfl rfl nofun (by simp [Stage.isCommitted, Stage.isOver])
  | takeOver here | cached here | start here | installed here | confirmed here | adoptFirst here
  | adoptLater here | loaded here =>
    exact inv.of_set here rfl rfl (fun _ _ => rfl) fun _ _ => ⟨.inl rfl, rfl⟩
  | unprepared here | offline here | failed here | orphaned here | vanished here | giveUp here
  | unloadable here =>
    exact inv.of_set here rfl rfl nofun fun _ _ => ⟨.inr rfl, rfl⟩
  | write | unwritable | finish | die | settle | send =>
    exact ⟨inv.kept, inv.answered, inv.committed, inv.beyond⟩

theorem Inserted.of_run {late : Nat → Prop} {actions : List (Action μ)}
    (inv : Inserted v m late s) (unique : ∀ c c', late c → late c' → c' = c)
    (spare : ∀ a ∈ actions, Spares v a) (run : runActions setup s actions = some t) :
    Inserted v m late t :=
  runActions_induction (P := fun _ s => Inserted v m late s) inv
    (fun _ _ _ _ _ inv spare moved => moved.inserted unique spare inv) spare run

theorem inserted_of_publish {i : Nat} (here : s.callers[i]? = some ⟨v, .publish m⟩)
    (moved : step setup s (.advance i) = some t) : Inserted v m (s.Overtakes v i) t := by
  have next : step setup s (.advance i) =
      some ({ s with modules := Table.put v m s.modules }.move i v (.leave (.ok m))) := by
    simp only [step, advance, here]
  rw [next] at moved
  cases moved
  have at_i := getElem?_callers_set (t := { s with modules := Table.put v m s.modules }.move i v
    (.leave (.ok m))) here rfl
  have other {c : Nat} (ne : c ≠ i) := getElem?_callers_set_ne (s := s)
    (t := { s with modules := Table.put v m s.modules }.move i v (.leave (.ok m))) ne rfl
  refine ⟨⟨m, Table.find?_put_self .., .inl rfl⟩, ?_, ?_, ?_⟩
  · rintro c n ⟨ne, x, at_c, committed⟩ ⟨y, at_c', answer⟩
    rw [other ne, at_c] at at_c'
    cases at_c'
    rw [Stage.answer?_of_committed committed] at answer
    cases answer
  · intro c x at_c committed
    by_cases eq : c = i
    · subst eq
      rw [at_i] at at_c
      cases at_c
      cases committed
    · rw [other eq] at at_c
      exact ⟨eq, x, at_c, committed⟩
  · rintro c ⟨ne, x, at_c, committed⟩
    rw [other ne]
    exact ⟨x, at_c, .inl committed⟩

theorem runActions_cons_iff {actions : List (Action μ)} :
    runActions setup s (a :: actions) = some t ↔
      ∃ next, step setup s a = some next ∧ runActions setup next actions = some t := by
  simp only [runActions, Option.bind_eq_bind, Option.bind_eq_some_iff]

theorem advance_of_lookup {c : Nat} (here : s.callers[c]? = some ⟨v, .lookup⟩)
    (found : s.module? v = some n) :
    step setup s (.advance c) = some (s.move c v (.done (.ok n))) := by
  simp only [step, advance, here, found]

/-- A module is put in by the caller `i`, and is ready to come into the table at `s`. Whoever looks
for it afterwards is answered at once. The answer is this module exactly if the one caller that
overtakes has not registered another. -/
theorem insert_survives_iff (setup : Setup) (files : FileTree)
    {before middle since : List (Action μ)} {v : Version} {m : μ} {s₀ s u : State μ}
    (begun : runActions setup (.start files) before = some s₀)
    (run : runActions setup s₀ (.insert v m :: middle) = some s)
    (ready : s.callers[s₀.callers.length]? = some ⟨v, .publish m⟩)
    (later : runActions setup s (.advance s₀.callers.length :: since) = some u)
    (alone : ∀ a ∈ before ++ middle ++ since, Spares v a) :
    (∀ c c', s.Overtakes v s₀.callers.length c → s.Overtakes v s₀.callers.length c' → c' = c) ∧
    ∃ n, (∀ c : Nat, u.callers[c]? = some ⟨v, .lookup⟩ →
        step setup u (.advance c) = some (u.move c v (.done (.ok n)))) ∧
      (n = m ↔ ∀ c n', s.Overtakes v s₀.callers.length c → u.Answers c v n' → n' = m) := by
  simp only [List.forall_mem_append] at alone
  obtain ⟨⟨spare, spare'⟩, spare''⟩ := alone
  obtain ⟨came, moved, run⟩ := runActions_cons_iff.1 run
  obtain ⟨published, moved', later⟩ := runActions_cons_iff.1 later
  have start : HaveTurnAmong (Others v s₀.callers.length) Stage.holdsTurn
      (.start files : State μ) := by
    intro c w x h
    simp [State.start] at h
  have turns := haveTurnAmong_of_run (haveTurnAmong_of_insert
    (haveTurnAmong_of_run start spare begun) rfl moved) spare' run
  have unique : ∀ c c', s.Overtakes v s₀.callers.length c →
      s.Overtakes v s₀.callers.length c' → c' = c := fun _ _ => overtakes_unique turns
  have inv := (inserted_of_publish ready moved').of_run unique spare'' later
  obtain ⟨n, found, source⟩ := inv.kept
  refine ⟨unique, n, fun c here => advance_of_lookup here found, fun same c n' late answers => ?_,
    fun all => ?_⟩
  · have answer := inv.answered late answers
    rw [found, same] at answer
    exact (Option.some.inj answer).symm
  · rcases source with same | ⟨c, late, answers⟩
    · exact same
    · exact all c n late answers

deriving instance DecidableEq for Stage, Caller

def waiting : List (Action Nat) :=
  [.get (.release 0 5 4), .advance 0, .advance 0, .advance 0, .advance 0]

def overtaking : List (Action Nat) :=
  [.advance 1, .write 0 [1], .finish 0 none, .settle 0, .send 0, .advance 0, .advance 0,
    .loaded 0 (.ok 7), .advance 0, .advance 0, .get (.release 0 5 4)]

theorem waiting_isSome :
    (runActions handedOverSetup (.start .empty) waiting).isSome = true := by
  decide +kernel

def waited : State Nat := (runActions handedOverSetup (.start .empty) waiting).get waiting_isSome

theorem inserting_isSome :
    (runActions handedOverSetup waited [.insert (.release 0 5 4) 8, .advance 1]).isSome = true := by
  decide +kernel

def inserting : State Nat :=
  (runActions handedOverSetup waited [.insert (.release 0 5 4) 8, .advance 1]).get inserting_isSome

theorem overtaking_isSome :
    (runActions handedOverSetup inserting (.advance 1 :: overtaking)).isSome = true := by
  decide +kernel

def overtook : State Nat :=
  (runActions handedOverSetup inserting (.advance 1 :: overtaking)).get overtaking_isSome

theorem insert_survives_iff_overtaken :
    (∀ c, inserting.Overtakes (.release 0 5 4) 1 c → c = 0) ∧
    ∃ n, n ≠ 8 ∧ step handedOverSetup overtook (.advance 2) =
      some (overtook.move 2 (.release 0 5 4) (.done (.ok n))) := by
  have alone : ∀ a ∈ waiting ++ [.advance 1] ++ overtaking, Spares (.release 0 5 4) a := by
    simp [waiting, overtaking, Spares]
  obtain ⟨unique, n, answered, same⟩ := insert_survives_iff handedOverSetup .empty
    (Option.some_get waiting_isSome).symm (Option.some_get inserting_isSome).symm
    (by decide +kernel) (Option.some_get overtaking_isSome).symm alone
  have late : inserting.Overtakes (.release 0 5 4) 1 0 :=
    ⟨by decide, .waiting 0, by decide +kernel, rfl⟩
  have answers : overtook.Answers 0 (.release 0 5 4) 7 := ⟨.leave (.ok 7), by decide +kernel, rfl⟩
  refine ⟨fun c other => unique 0 c late other, n, fun eq => ?_, answered 2 (by decide +kernel)⟩
  exact absurd (same.1 eq 0 7 late answers) (by decide)

/-- The caller that put `8` in has returned before the third one asks, and this one is answered
`7`. -/
theorem insert_overtaken :
    let actions := waiting ++ .insert (.release 0 5 4) 8 :: .advance 1 :: .advance 1 ::
      overtaking.dropLast
    (runActions handedOverSetup (.start .empty) actions).map (fun s => s.callers[1]?) =
        some (some ⟨.release 0 5 4, .done (.ok 8)⟩) ∧
      (runActions handedOverSetup (.start .empty)
          (actions ++ [.get (.release 0 5 4), .advance 2])).map (fun s => s.callers[2]?) =
        some (some ⟨.release 0 5 4, .done (.ok 7)⟩) := by
  constructor
  · decide +kernel
  · decide +kernel

end ContractBuild.Registry
