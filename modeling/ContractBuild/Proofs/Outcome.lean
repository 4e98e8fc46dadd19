import Mathlib.Data.List.Forall2

/-!
# What came of a computation that can fail

A result of a sequence of steps is taken apart into the results of its steps. A list is gone through
up to its first failure.
-/

namespace ContractBuild

variable {ε α β : Type}

theorem bind_eq_ok_iff {m : Except ε α} {f : α → Except ε β} {y : β} :
    m >>= f = .ok y ↔ ∃ x, m = .ok x ∧ f x = .ok y := by
  cases m with
  | error p => exact ⟨nofun, nofun⟩
  | ok x => exact ⟨fun h => ⟨x, rfl, h⟩, fun ⟨_, eq, h⟩ => by cases eq; exact h⟩

theorem map_eq_ok_iff {m : Except ε α} {f : α → β} {y : β} :
    m.map f = .ok y ↔ ∃ x, m = .ok x ∧ f x = y := by
  cases m with
  | error p => exact ⟨nofun, nofun⟩
  | ok x => exact ⟨fun h => ⟨x, rfl, Except.ok.inj h⟩, fun ⟨_, eq, h⟩ => by cases eq; exact congrArg _ h⟩

theorem pure_eq_ok_iff {x y : α} : (pure x : Except ε α) = .ok y ↔ x = y :=
  ⟨Except.ok.inj, congrArg _⟩

variable {f : α → Except ε β}

theorem mapM_eq_ok_iff {items : List α} {made : List β} :
    items.mapM f = .ok made ↔ List.Forall₂ (fun x y => f x = .ok y) items made := by
  induction items generalizing made with
  | nil => cases made <;> simp [Pure.pure, Except.pure]
  | cons x items ih =>
    rw [List.mapM_cons]
    cases first : f x with
    | error e => cases made <;> simp [Bind.bind, Except.bind, first]
    | ok y =>
      cases rest : items.mapM f with
      | error e => cases made <;> simp [Bind.bind, Except.bind, ← ih, rest]
      | ok ys =>
        cases made <;> simp [Bind.bind, Except.bind, Pure.pure, Except.pure, ← ih, rest, first]

theorem mapM_eq_error_iff {items : List α} {e : ε} :
    items.mapM f = .error e ↔ ∃ before x after, items = before ++ x :: after ∧
      (∀ y ∈ before, ∃ z, f y = .ok z) ∧ f x = .error e := by
  induction items with
  | nil => simp [Pure.pure, Except.pure]
  | cons x items ih =>
    rw [List.mapM_cons]
    cases first : f x with
    | error e' =>
      constructor
      · intro eq
        cases eq
        exact ⟨[], x, items, rfl, nofun, first⟩
      · intro ⟨before, y, after, eq, fine, failed⟩
        cases before with
        | nil =>
          obtain ⟨rfl, rfl⟩ := List.cons.inj eq
          rw [first] at failed
          cases failed
          rfl
        | cons z before =>
          obtain ⟨rfl, -⟩ := List.cons.inj eq
          obtain ⟨w, ok⟩ := fine x List.mem_cons_self
          rw [first] at ok
          cases ok
    | ok w =>
      have step : (do let y ← Except.ok w; let ys ← items.mapM f; Pure.pure (y :: ys)) =
          (.error e : Except ε (List β)) ↔ items.mapM f = .error e := by
        cases items.mapM f <;> simp [Bind.bind, Except.bind, Pure.pure, Except.pure]
      rw [step, ih]
      constructor
      · intro ⟨before, y, after, eq, fine, failed⟩
        refine ⟨x :: before, y, after, by rw [eq, List.cons_append], fun z mem => ?_, failed⟩
        rcases List.mem_cons.1 mem with rfl | mem
        · exact ⟨w, first⟩
        · exact fine z mem
      · intro ⟨before, y, after, eq, fine, failed⟩
        cases before with
        | nil =>
          obtain ⟨rfl, -⟩ := List.cons.inj eq
          rw [first] at failed
          cases failed
        | cons z before =>
          obtain ⟨-, eq⟩ := List.cons.inj eq
          exact ⟨before, y, after, eq, fun v mem => fine v (List.mem_cons_of_mem _ mem), failed⟩

end ContractBuild
