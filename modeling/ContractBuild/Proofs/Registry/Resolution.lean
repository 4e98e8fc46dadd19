import ContractBuild.Registry.Serve
import ContractBuild.Proofs.Registry.Transition

/-!
# What a registry says while it resolves

Every step of a registry adds to its history and takes nothing back. What it adds and what others
can hear are reports on installations, so a build that gets its compiler from a registry hears
nothing else from it.
-/

namespace ContractBuild

def Note.IsInstallation : Note → Prop
  | .event (.installStarted _) | .event (.installSucceeded _) | .event (.installFailed _ _) => True
  | _ => False

def OnlyInstallations (notes : List Note) : Prop := ∀ note ∈ notes, note.IsInstallation

namespace Registry

variable {μ σ : Type} {setup : Setup} {host : Host μ σ} {s t u : State μ} {a : Action μ}

def Reports (s t : State μ) : Prop :=
  ∃ marks, t.history = s.history ++ marks ∧ OnlyInstallations (marks.filterMap Mark.note?)

theorem Reports.of_eq (same : t.history = s.history) : Reports s t :=
  ⟨[], by rw [same, List.append_nil], nofun⟩

theorem Reports.of_mark {m : Mark μ} (grown : t.history = s.history ++ [m])
    (about : ∀ note, m.note? = some note → note.IsInstallation) : Reports s t := by
  refine ⟨[m], grown, fun note mem => ?_⟩
  obtain ⟨_, one, said⟩ := List.mem_filterMap.1 mem
  rw [List.mem_singleton.1 one] at said
  exact about note said

theorem Reports.trans (first : Reports s t) (second : Reports t u) : Reports s u := by
  obtain ⟨marks, grown, about⟩ := first
  obtain ⟨marks', grown', about'⟩ := second
  refine ⟨marks ++ marks', by rw [grown', grown, List.append_assoc], fun note mem => ?_⟩
  rw [List.filterMap_append, List.mem_append] at mem
  exact mem.elim (about note) (about' note)

theorem Transition.reports (h : Transition setup s a t) : Reports s t := by
  cases h with
  | start | installed | failed | orphaned | giveUp =>
    refine .of_mark rfl fun note said => ?_
    cases said
    trivial
  | adoptFirst | loaded | unloadable => exact .of_mark rfl nofun
  | get | insert | hit | miss | turn | hitBehind | missBehind | takeOver | cached | unprepared
  | offline | confirmed | vanished | adoptLater | publish | leave | write | unwritable | finish
  | die | settle | send => exact .of_eq rfl

theorem act_reports (setup : Setup) (s : State μ) (a : Action μ) : Reports s (act setup s a) := by
  unfold act
  cases moved : step setup s a with
  | none => exact .of_eq rfl
  | some t => exact (transition_of_step moved).reports

theorem foldl_act_reports (actions : List (Action μ)) (s : State μ) :
    Reports s (actions.foldl (act setup) s) := by
  induction actions generalizing s with
  | nil => exact .of_eq rfl
  | cons a actions ih => exact (act_reports setup s a).trans (ih _)

theorem proceed_reports (d : Nat) (works : List Work) (s : State μ) :
    Reports s (proceed setup d works s) :=
  foldl_act_reports _ s

theorem drive_reports (c fuel : Nat) (s : State μ) (world : σ) :
    Reports s (drive setup host c fuel (s, world)).1 := by
  induction fuel generalizing s world with
  | zero => exact .of_eq rfl
  | succ fuel ih =>
    unfold drive
    split
    · exact (act_reports _ _ _).trans (ih _ _)
    · rename_i v d _
      have received : Reports (proceed setup d (host.work d world).1 s)
          ((step setup (proceed setup d (host.work d world).1 s) (.advance c)).getD
            (act setup (proceed setup d (host.work d world).1 s) (.giveUp c))) := by
        cases moved : step setup (proceed setup d (host.work d world).1 s) (.advance c) with
        | none => exact act_reports _ _ _
        | some t => exact (transition_of_step moved).reports
      exact ((proceed_reports d _ s).trans received).trans (ih _ _)
    · exact .of_eq rfl
    · exact .of_eq rfl
    · exact (act_reports _ _ _).trans (ih _ _)

theorem get_reports (v : Version) (s : State μ) (world : σ) :
    Reports s (get setup host v s world).2.1 :=
  (act_reports setup s (.get v)).trans
    (drive_reports s.callers.length stepLimit (act setup s (.get v)) world)

theorem resolver_result (hold : μ → Compiler (State μ × σ)) (v : Version) (s : State μ × σ) :
    ((resolver setup host hold v).run s).result =
      ((get setup host v s.1 s.2).1.getD (.error .unsettled)).map hold := rfl

theorem resolver_notes (hold : μ → Compiler (State μ × σ)) (v : Version) (s : State μ × σ) :
    OnlyInstallations ((resolver setup host hold v).run s).notes := by
  obtain ⟨marks, grown, about⟩ : Reports s.1 (get setup host v s.1 s.2).2.1 := get_reports v s.1 s.2
  intro note mem
  change note ∈ ((get setup host v s.1 s.2).2.1.history.drop s.1.history.length).filterMap
    Mark.note? at mem
  rw [grown, List.drop_left] at mem
  exact about note mem

end Registry
end ContractBuild
