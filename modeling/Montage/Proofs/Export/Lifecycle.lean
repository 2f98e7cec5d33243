import Montage.Proofs.Export.WorkerProgram

/-!
Contract: what the status of exports can go through.

The phase and the running flag are two fields, and every operation writes them
on its own. `lifecycle_lawful` says what holds whatever operations are called,
in any order and number: the two agree, a beginning is the only way into a run
and to another destination, and giving up leaves an ended export alone.

Owns: operations on the status, runs of them, and the laws of each operation.
Does not own: which operations a worker calls, in `Proofs.Export.WorkerProgram`,
and whose calls come in between, in `Proofs.Export.Interleaving`.
-/

namespace Montage.Export

/-- Everything that can be called on the status. -/
inductive Operation where
  | begin (destination : String)
  | step (step : WorkerStep)
deriving DecidableEq, Repr

namespace Status

/-- Calls an operation; gives its answer and the status behind it. -/
def perform (status : Status) : Operation → Except Error Unit × Status
  | .begin destination =>
    match status.tryBegin destination with
    | .ok begun => (.ok (), begun)
    | .error cause => (.error cause, status)
  | .step step => (.ok (), step.apply status)

def performAll (status : Status) (operations : List Operation) : Status :=
  operations.foldl (fun status operation => (status.perform operation).2) status

theorem perform_begin_of_running {status : Status} (busy : status.running = true)
    (destination : String) :
    status.perform (.begin destination) = (.error .exportInProgress, status) := by
  simp [perform, tryBegin, busy]

theorem perform_begin_of_free {status : Status} (free : status.running = false)
    (destination : String) :
    status.perform (.begin destination) = (.ok (), .begun destination) := by
  simp [perform, tryBegin, free]

/-- Everything an operation can do: begin an export, refuse to, or take one step of a worker. -/
theorem perform_cases (status : Status) (operation : Operation) :
    (∃ destination, operation = .begin destination ∧ status.running = false ∧
        status.perform operation = (.ok (), .begun destination)) ∨
      (∃ destination, operation = .begin destination ∧ status.running = true ∧
        status.perform operation = (.error .exportInProgress, status)) ∨
      ∃ step, operation = .step step ∧ status.perform operation = (.ok (), step.apply status) := by
  cases operation with
  | step step => exact Or.inr (Or.inr ⟨step, rfl, rfl⟩)
  | begin destination =>
      cases busy : status.running with
      | false => exact Or.inl ⟨destination, rfl, rfl, perform_begin_of_free busy destination⟩
      | true =>
          exact Or.inr (Or.inl ⟨destination, rfl, rfl, perform_begin_of_running busy destination⟩)

/-! ## Phase and flag -/

/-- The flag says what the phase says. -/
def Coherent (status : Status) : Prop := status.running = true ↔ status.phase = .running

theorem coherent_initial : initial.Coherent := by
  simp [Coherent, initial]

theorem coherent_begun (destination : String) : (begun destination).Coherent := by
  simp [Coherent, begun]

theorem Coherent.apply {status : Status} (coherent : status.Coherent) (step : WorkerStep) :
    (step.apply status).Coherent := by
  unfold Coherent
  cases ends : step.recordsOutcome with
  | false =>
      rw [WorkerStep.apply_running_of_report ends, WorkerStep.apply_phase_of_report ends]
      exact coherent
  | true =>
      rw [WorkerStep.apply_running_of_outcome ends]
      simp [WorkerStep.apply_phase_of_outcome ends]

theorem Coherent.perform {status : Status} (coherent : status.Coherent) (operation : Operation) :
    (status.perform operation).2.Coherent := by
  rcases status.perform_cases operation with
    ⟨destination, -, -, performed⟩ | ⟨_, -, -, performed⟩ | ⟨step, -, performed⟩
  · rw [performed]
    exact coherent_begun destination
  · rw [performed]
    exact coherent
  · rw [performed]
    exact coherent.apply step

theorem Coherent.performAll {status : Status} (coherent : status.Coherent)
    (operations : List Operation) : (status.performAll operations).Coherent := by
  induction operations generalizing status with
  | nil => exact coherent
  | cons operation rest inductionHypothesis => exact inductionHypothesis (coherent.perform operation)

theorem Coherent.not_running {status : Status} (coherent : status.Coherent)
    (phase : status.phase ≠ .running) : status.running = false := by
  rw [← Bool.not_eq_true]
  exact fun busy => phase (coherent.mp busy)

/-! ## Giving up -/

theorem release_of_coherent {status : Status} (coherent : status.Coherent)
    (phase : status.phase ≠ .running) : status.release = status :=
  WorkerStep.release_of_ended (coherent.not_running phase) phase

theorem release_idempotent (status : Status) : status.release.release = status.release := by
  have running : (WorkerStep.release.apply status).running = false :=
    WorkerStep.apply_running_of_outcome rfl
  have phase : (WorkerStep.release.apply status).phase ≠ .running :=
    WorkerStep.apply_phase_of_outcome rfl
  exact WorkerStep.release_of_ended running phase

/-! ## The laws of one operation -/

/-- The operation begins an export: it is a beginning, and it is answered with success. -/
def Begins (status : Status) (operation : Operation) : Prop :=
  ∃ destination, operation = .begin destination ∧
    status.perform operation = (.ok (), .begun destination)

/-- What the next operation finds and does. -/
structure Lawful (status : Status) (operation : Operation) : Prop where
  coherent : status.running = true ↔ status.phase = .running
  /-- Only a beginning leads into a run. -/
  starts : status.phase ≠ .running → (status.perform operation).2.phase = .running →
    status.Begins operation
  refuses : ∀ destination,
    (status.perform (.begin destination)).1 = .error .exportInProgress ↔ status.running = true
  refused : ∀ destination, status.running = true →
    (status.perform (.begin destination)).2 = status
  begins : ∀ destination, status.running = false → status.Begins (.begin destination)
  /-- An outcome stays until an export begins or another outcome is recorded. -/
  leaves : status.phase.isTerminal = true →
    (status.perform operation).2.phase ≠ status.phase →
      status.Begins operation ∨ operation = .step .succeed ∨
        ∃ message, operation = .step (.fail message)
  neverIdle : (status.perform operation).2.phase = .idle → status.phase = .idle
  path : (status.perform operation).2.path ≠ status.path → status.Begins operation
  release : status.phase.isTerminal = true ∨ status.phase = .idle → status.release = status
  releaseTwice : status.release.release = status.release

/-- The phase behind a step is the phase before it, or a failure or success that the step tells. -/
theorem phase_apply_cases (status : Status) (step : WorkerStep) :
    (step.apply status).phase = status.phase ∨
      (step = .succeed ∧ (step.apply status).phase = .succeeded) ∨
      ((∃ message, step = .fail message) ∧ (step.apply status).phase = .failed) ∨
      (status.phase = .running ∧ (step.apply status).phase = .failed) := by
  cases step with
  | spawn => exact Or.inl rfl
  | message text => exact Or.inl rfl
  | progress percent => exact Or.inl rfl
  | pause => exact Or.inl rfl
  | succeed => exact Or.inr (Or.inl ⟨rfl, rfl⟩)
  | fail message => exact Or.inr (Or.inr (Or.inl ⟨⟨message, rfl⟩, rfl⟩))
  | release =>
      by_cases busy : status.phase = .running
      · exact Or.inr (Or.inr (Or.inr ⟨busy, by simp [WorkerStep.apply, release, busy, fail]⟩))
      · exact Or.inl (by simp [WorkerStep.apply, release, busy])

/-- An operation that begins nothing keeps the destination, and the phase unless it ends an export. -/
theorem begins_or_phase_cases (status : Status) (operation : Operation) :
    status.Begins operation ∨
      (status.perform operation).2.path = status.path ∧
        ((status.perform operation).2.phase = status.phase ∨
          (operation = .step .succeed ∧ (status.perform operation).2.phase = .succeeded) ∨
          ((∃ message, operation = .step (.fail message)) ∧
            (status.perform operation).2.phase = .failed) ∨
          (status.phase = .running ∧ (status.perform operation).2.phase = .failed)) := by
  rcases status.perform_cases operation with
    ⟨destination, rfl, -, performed⟩ | ⟨_, -, -, performed⟩ | ⟨step, rfl, performed⟩
  · exact Or.inl ⟨destination, rfl, performed⟩
  · rw [performed]
    exact Or.inr ⟨rfl, Or.inl rfl⟩
  · rw [performed]
    refine Or.inr ⟨WorkerStep.apply_path status step, ?_⟩
    rcases status.phase_apply_cases step with same | ⟨rfl, after⟩ | ⟨⟨message, rfl⟩, after⟩ | gaveUp
    · exact Or.inl same
    · exact Or.inr (Or.inl ⟨rfl, after⟩)
    · exact Or.inr (Or.inr (Or.inl ⟨⟨message, rfl⟩, after⟩))
    · exact Or.inr (Or.inr (Or.inr gaveUp))

theorem begin_refused_iff (status : Status) (destination : String) :
    (status.perform (.begin destination)).1 = .error .exportInProgress ↔
      status.running = true := by
  cases busy : status.running with
  | true => simp [perform_begin_of_running busy]
  | false => simp [perform_begin_of_free busy]

/-- Where flag and phase agree, every operation keeps to the laws. -/
theorem Coherent.lawful {status : Status} (coherent : status.Coherent) (operation : Operation) :
    status.Lawful operation where
  coherent := coherent
  starts := by
    intro before after
    rcases status.begins_or_phase_cases operation with
      begins | ⟨-, same | ⟨-, ended⟩ | ⟨-, ended⟩ | ⟨-, ended⟩⟩
    · exact begins
    · rw [same] at after
      exact absurd after before
    all_goals
      rw [ended] at after
      cases after
  refuses := status.begin_refused_iff
  refused destination busy := by rw [perform_begin_of_running busy]
  begins destination free := ⟨destination, rfl, perform_begin_of_free free destination⟩
  leaves := by
    intro terminal left
    rcases status.begins_or_phase_cases operation with
      begins | ⟨-, same | ⟨succeeds, -⟩ | ⟨fails, -⟩ | ⟨busy, -⟩⟩
    · exact Or.inl begins
    · exact absurd same left
    · exact Or.inr (Or.inl succeeds)
    · exact Or.inr (Or.inr fails)
    · rw [busy] at terminal
      cases terminal
  neverIdle := by
    intro after
    rcases status.begins_or_phase_cases operation with
      ⟨destination, -, performed⟩ | ⟨-, same | ⟨-, ended⟩ | ⟨-, ended⟩ | ⟨-, ended⟩⟩
    · rw [performed] at after
      cases after
    · rwa [same] at after
    all_goals
      rw [ended] at after
      cases after
  path := by
    intro moved
    rcases status.begins_or_phase_cases operation with begins | ⟨kept, -⟩
    · exact begins
    · exact absurd kept moved
  release := by
    intro ended
    refine release_of_coherent coherent ?_
    intro busy
    rw [busy] at ended
    rcases ended with terminal | idle
    · cases terminal
    · cases idle
  releaseTwice := release_idempotent status

/-- Whatever was called before, the status is in order and the next operation keeps to the laws. -/
theorem lifecycle_lawful (operations : List Operation) (operation : Operation) :
    (initial.performAll operations).Lawful operation :=
  (coherent_initial.performAll operations).lawful operation

end Status

end Montage.Export
