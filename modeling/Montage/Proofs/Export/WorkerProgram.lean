import Montage.Export.Run

/-!
Contract: the shape of what a worker does to the status.

A worker reports for a while, records at most one verdict, and gives the export
up last. Every law about the status of an export is derived from this shape, so
none of them looks into the engine's events again.

Owns: quiet steps, the split of a worker's steps into reports and ending, and
the lawful orders of steps.
Does not own: what the status is after such steps.
-/

namespace Montage.Export

namespace WorkerStep

/-- True for steps that end an export: both verdicts, and giving it up. -/
def recordsOutcome : WorkerStep → Bool
  | .succeed | .fail _ | .release => true
  | .spawn | .message _ | .progress _ | .pause => false

def isVerdict : WorkerStep → Bool
  | .succeed | .fail _ => true
  | .spawn | .message _ | .progress _ | .release | .pause => false

@[simp] theorem applyAll_nil (status : Status) : applyAll status [] = status := rfl

@[simp] theorem applyAll_cons (status : Status) (step : WorkerStep) (rest : List WorkerStep) :
    applyAll status (step :: rest) = applyAll (step.apply status) rest := rfl

theorem applyAll_append (status : Status) (first second : List WorkerStep) :
    applyAll status (first ++ second) = applyAll (applyAll status first) second :=
  List.foldl_append

/-- The orders in which a worker may take steps. -/
inductive Lawful : List WorkerStep → Prop where
  | report {step : WorkerStep} {rest : List WorkerStep} :
      step.recordsOutcome = false → Lawful rest → Lawful (step :: rest)
  | verdict {step : WorkerStep} : step.isVerdict = true → Lawful [step, .release]
  | abandoned : Lawful [.release]

theorem Lawful.append {reports ending : List WorkerStep}
    (quiet : ∀ step ∈ reports, step.recordsOutcome = false) (lawful : Lawful ending) :
    Lawful (reports ++ ending) := by
  induction reports with
  | nil => exact lawful
  | cons step rest inductionHypothesis =>
      refine .report (quiet step (by simp)) (inductionHypothesis ?_)
      intro other member
      exact quiet other (by simp [member])

/-! ## What steps do to a status -/

theorem apply_path (status : Status) (step : WorkerStep) :
    (step.apply status).path = status.path := by
  cases step with
  | release =>
      simp only [apply, Status.release]
      split <;> rfl
  | _ => rfl

theorem apply_running_of_report {status : Status} {step : WorkerStep}
    (quiet : step.recordsOutcome = false) : (step.apply status).running = status.running := by
  cases step <;> first | rfl | cases quiet

theorem apply_phase_of_report {status : Status} {step : WorkerStep}
    (quiet : step.recordsOutcome = false) : (step.apply status).phase = status.phase := by
  cases step <;> first | rfl | cases quiet

theorem apply_running_of_outcome {status : Status} {step : WorkerStep}
    (ends : step.recordsOutcome = true) : (step.apply status).running = false := by
  cases step with
  | release =>
      simp only [apply, Status.release]
      split <;> rfl
  | succeed => rfl
  | fail text => rfl
  | _ => cases ends

theorem apply_phase_of_outcome {status : Status} {step : WorkerStep}
    (ends : step.recordsOutcome = true) : (step.apply status).phase ≠ .running := by
  cases step with
  | release =>
      simp only [apply, Status.release]
      split
      · simp [Status.fail]
      · assumption
  | succeed => simp [apply, Status.succeed]
  | fail text => simp [apply, Status.fail]
  | _ => cases ends

/-- A status of an export that has ended is not changed by giving the export up. -/
theorem release_of_ended {status : Status} (running : status.running = false)
    (phase : status.phase ≠ .running) : status.release = status := by
  rw [Status.release, if_neg phase, ← running]

theorem recordsOutcome_of_isVerdict {step : WorkerStep} (decides : step.isVerdict = true) :
    step.recordsOutcome = true := by
  cases step <;> first | rfl | cases decides

end WorkerStep

/-! ## Reports -/

namespace Monitor

def follow (monitor : Monitor) : List StreamItem → Monitor
  | [] => monitor
  | .pause :: rest => monitor.follow rest
  | .event event :: rest => (monitor.handle event).2.follow rest

/-- The percentages reported while the stream is followed, oldest first. -/
def reported (monitor : Monitor) : List StreamItem → List Float
  | [] => []
  | .pause :: rest => monitor.reported rest
  | .event event :: rest =>
    (monitor.handle event).1.toList ++ (monitor.handle event).2.reported rest

/-- The steps that report these percentages, pauses in between. -/
def reports (monitor : Monitor) : List StreamItem → List WorkerStep
  | [] => []
  | .pause :: rest => .pause :: monitor.reports rest
  | .event event :: rest =>
    ((monitor.handle event).1.toList.map WorkerStep.progress) ++
      (monitor.handle event).2.reports rest

theorem reports_quiet (monitor : Monitor) (items : List StreamItem) :
    ∀ step ∈ monitor.reports items, step.recordsOutcome = false := by
  induction items generalizing monitor with
  | nil => simp [reports]
  | cons item rest inductionHypothesis =>
      cases item with
      | pause =>
          intro step member
          rcases List.mem_cons.mp member with rfl | later
          · rfl
          · exact inductionHypothesis monitor step later
      | event event =>
          intro step member
          rcases List.mem_append.mp member with now | later
          · obtain ⟨percent, -, rfl⟩ := List.mem_map.mp now
            rfl
          · exact inductionHypothesis _ step later

/-- Following the engine does not start it again. -/
theorem spawn_not_mem_reports (monitor : Monitor) (items : List StreamItem) :
    .spawn ∉ monitor.reports items := by
  induction items generalizing monitor with
  | nil => exact List.not_mem_nil
  | cons item rest inductionHypothesis =>
      cases item with
      | pause => simp [reports, inductionHypothesis monitor]
      | event event => simp [reports, inductionHypothesis (monitor.handle event).2]

end Monitor

/-! ## The steps of a behaviour -/

namespace Behaviour

theorem followSteps_eq (ending : Ending) (monitor : Monitor) (items : List StreamItem) :
    followSteps ending monitor items =
      monitor.reports items ++ endingSteps (monitor.follow items).tail ending := by
  induction items generalizing monitor with
  | nil => rfl
  | cons item rest inductionHypothesis =>
      cases item with
      | pause => simp [followSteps, Monitor.reports, Monitor.follow, inductionHypothesis]
      | event event => simp [followSteps, Monitor.reports, Monitor.follow, inductionHypothesis]

/-- The steps taken before the export ends: the engine is started, and followed if it runs. -/
def reportSteps (total : Float) : Behaviour → List WorkerStep
  | .refuses _ => [.spawn]
  | .crashesAtStart => [.spawn]
  | .runs items _ => .spawn :: .message "Encoding..." :: (Monitor.start total).reports items

/-- The verdict on a behaviour; there is none when the worker itself stops. -/
def verdict? (total : Float) : Behaviour → Option WorkerStep
  | .refuses cause => some (.fail (errorMessage cause))
  | .crashesAtStart => none
  | .runs items ending => (endingSteps ((Monitor.start total).follow items).tail ending).head?

theorem endingSteps_eq_head (tail : Tail) (ending : Ending) :
    endingSteps tail ending = (endingSteps tail ending).head?.toList := by
  cases ending with
  | streamFails cause => rfl
  | waitFails cause => rfl
  | exits status =>
      simp only [endingSteps]
      split <;> rfl
  | crashes => rfl

/-- Every worker reports, records its verdict if there is one, and gives the export up. -/
theorem steps_eq (total : Float) (behaviour : Behaviour) :
    behaviour.steps total =
      behaviour.reportSteps total ++ ((behaviour.verdict? total).toList ++ [.release]) := by
  cases behaviour with
  | refuses cause => rfl
  | crashesAtStart => rfl
  | runs items ending =>
      simp only [steps, bodySteps, reportSteps, verdict?, followSteps_eq]
      rw [← endingSteps_eq_head]
      simp

theorem reportSteps_quiet (total : Float) (behaviour : Behaviour) :
    ∀ step ∈ behaviour.reportSteps total, step.recordsOutcome = false := by
  cases behaviour with
  | refuses cause => simp [reportSteps, WorkerStep.recordsOutcome]
  | crashesAtStart => simp [reportSteps, WorkerStep.recordsOutcome]
  | runs items ending =>
      rw [reportSteps, List.forall_mem_cons, List.forall_mem_cons]
      exact ⟨rfl, rfl, Monitor.reports_quiet _ items⟩

theorem isVerdict_of_verdict? {total : Float} {behaviour : Behaviour} {step : WorkerStep}
    (found : behaviour.verdict? total = some step) : step.isVerdict = true := by
  cases behaviour with
  | refuses cause =>
      cases found
      rfl
  | crashesAtStart => cases found
  | runs items ending =>
      cases ending with
      | streamFails cause =>
          cases found
          rfl
      | waitFails cause =>
          cases found
          rfl
      | crashes => cases found
      | exits status =>
          simp only [verdict?, endingSteps] at found
          split at found <;>
            · cases found
              rfl

theorem spawn_not_mem_endingSteps (tail : Tail) (ending : Ending) :
    .spawn ∉ endingSteps tail ending := by
  cases ending with
  | exits status =>
      simp only [endingSteps]
      split <;> simp
  | _ => simp [endingSteps]

/-- A worker starts the engine first, and never again. -/
theorem exists_steps_eq_spawn_cons (total : Float) (behaviour : Behaviour) :
    ∃ later, behaviour.steps total = .spawn :: later ∧ .spawn ∉ later := by
  refine ⟨behaviour.bodySteps total ++ [.release], rfl, ?_⟩
  cases behaviour with
  | refuses cause => simp [bodySteps]
  | crashesAtStart => simp [bodySteps]
  | runs items ending =>
      simp [bodySteps, followSteps_eq, Monitor.spawn_not_mem_reports, spawn_not_mem_endingSteps]

theorem steps_lawful (total : Float) (behaviour : Behaviour) :
    WorkerStep.Lawful (behaviour.steps total) := by
  rw [steps_eq]
  refine WorkerStep.Lawful.append (reportSteps_quiet total behaviour) ?_
  cases found : behaviour.verdict? total with
  | none => exact .abandoned
  | some step => exact .verdict (isVerdict_of_verdict? found)

end Behaviour

end Montage.Export
