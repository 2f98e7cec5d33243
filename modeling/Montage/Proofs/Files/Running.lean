import Montage.Files.FileSystem

/-!
Contract: running computations over a state that may fail.

A computation in several steps fails in one of them or runs all of them, each
from where the one before it ended.

Owns: what it takes for steps in turn to run, and what they come to if they do.
Does not own: what a single operation on files does.
-/

namespace Montage.Files

variable {σ α β γ : Type} {before after : σ} {value : β}

section Binding

variable {first : ExceptT Error (StateM σ) β}

theorem run_bind (succeeds : first.run.run before = (.ok value, after))
    (more : β → ExceptT Error (StateM σ) γ) :
    (first >>= more).run.run before = (more value).run.run after := by
  rw [ExceptT.run_bind, StateT.run_bind, succeeds]
  rfl

variable {more : β → ExceptT Error (StateM σ) γ}

/-- A computation and more fails in one of them or runs both. -/
theorem run_bind_cases {outcome : Except Error γ}
    (ran : (first >>= more).run.run before = (outcome, after)) :
    (∃ cause, first.run.run before = (.error cause, after) ∧ outcome = .error cause) ∨
      ∃ value between, first.run.run before = (.ok value, between) ∧
        (more value).run.run between = (outcome, after) := by
  rw [ExceptT.run_bind, StateT.run_bind] at ran
  rcases ranFirst : first.run.run before with ⟨result, between⟩
  rw [ranFirst] at ran
  cases result with
  | ok value => exact Or.inr ⟨value, between, rfl, ran⟩
  | error cause =>
      cases ran
      exact Or.inl ⟨cause, rfl, rfl⟩

theorem run_bind_eq_ok {result : γ}
    (succeeds : (first >>= more).run.run before = (.ok result, after)) :
    ∃ value between, first.run.run before = (.ok value, between) ∧
      (more value).run.run between = (.ok result, after) := by
  rcases run_bind_cases succeeds with ⟨cause, _, failed⟩ | ran
  · cases failed
  · exact ran

end Binding

section Operations

variable {operation : StateM σ (Except OsError β)}

theorem run_orFail (succeeds : operation.run before = (.ok value, after)) :
    (orFail operation).run.run before = (.ok value, after) := by
  rw [orFail, ExceptT.run_mk, StateT.run_bind, succeeds]
  rfl

theorem run_orFail_cases {outcome : Except Error β}
    (ran : (orFail operation).run.run before = (outcome, after)) :
    ∃ result, operation.run before = (result, after) ∧
      ((∃ value, result = .ok value ∧ outcome = .ok value) ∨
        ∃ cause, result = .error cause ∧ outcome = .error (.files cause)) := by
  rw [orFail, ExceptT.run_mk, StateT.run_bind] at ran
  rcases ranFirst : operation.run before with ⟨result, between⟩
  rw [ranFirst] at ran
  cases result with
  | ok value =>
      cases ran
      exact ⟨_, rfl, Or.inl ⟨value, rfl, rfl⟩⟩
  | error cause =>
      cases ran
      exact ⟨_, rfl, Or.inr ⟨cause, rfl, rfl⟩⟩

theorem run_orFail_eq_ok (succeeds : (orFail operation).run.run before = (.ok value, after)) :
    operation.run before = (.ok value, after) := by
  obtain ⟨result, ran, ⟨middle, rfl, same⟩ | ⟨cause, _, failed⟩⟩ := run_orFail_cases succeeds
  · cases same
    exact ran
  · cases failed

end Operations

section Lists

variable {f : α → ExceptT Error (StateM σ) β}

/-- Programs that leave a state as it is do so one after another. -/
theorem run_mapM {g : α → β} (each : ∀ item, (f item).run.run before = (.ok (g item), before))
    (items : List α) : (items.mapM f).run.run before = (.ok (items.map g), before) := by
  induction items with
  | nil => rfl
  | cons item items inductionHypothesis =>
      rw [List.mapM_cons, run_bind (each item), run_bind inductionHypothesis]
      rfl

theorem run_mapM_cons_eq_ok_iff {item : α} {items : List α} {values : List β} :
    ((item :: items).mapM f).run.run before = (.ok values, after) ↔
      ∃ value rest between, (f item).run.run before = (.ok value, between) ∧
        (items.mapM f).run.run between = (.ok rest, after) ∧ values = value :: rest := by
  rw [List.mapM_cons]
  constructor
  · intro succeeds
    obtain ⟨value, between, first, succeeds⟩ := run_bind_eq_ok succeeds
    obtain ⟨rest, _, others, succeeds⟩ := run_bind_eq_ok succeeds
    cases succeeds
    exact ⟨value, rest, between, first, others, rfl⟩
  · rintro ⟨value, rest, between, first, others, rfl⟩
    rw [run_bind first, run_bind others]
    rfl

end Lists

end Montage.Files
