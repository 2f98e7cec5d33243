import Montage.Proofs.Export.Percent
import Montage.Proofs.Export.WorkerProgram

/-!
Contract: the percentages one export reports.

The status shows the last percentage reported. The tracker only answers with a
new maximum, so the percentages rise from zero, and none exceeds the cap.

Owns: the percentages of steps, the answers of a tracker to positions, and that
the percentages of a worker rise.
Does not own: the status after an outcome.
-/

namespace Montage.Export

namespace WorkerStep

def percent? : WorkerStep → Option Float
  | .progress percent => some percent
  | _ => none

def percents (steps : List WorkerStep) : List Float := steps.filterMap percent?

theorem percents_append (first second : List WorkerStep) :
    percents (first ++ second) = percents first ++ percents second :=
  List.filterMap_append

theorem progress_of_reports {steps : List WorkerStep}
    (quiet : ∀ step ∈ steps, step.recordsOutcome = false) (status : Status) :
    (applyAll status steps).progress = (percents steps).getLastD status.progress := by
  induction steps generalizing status with
  | nil => rfl
  | cons step rest inductionHypothesis =>
      have stepQuiet := quiet step (List.mem_cons_self ..)
      have restQuiet : ∀ other ∈ rest, other.recordsOutcome = false :=
        fun other member => quiet other (List.mem_cons_of_mem step member)
      rw [applyAll_cons, inductionHypothesis restQuiet]
      cases step with
      | progress percent => exact (List.getLastD_cons ..).symm
      | spawn => rfl
      | message text => rfl
      | pause => rfl
      | succeed => cases stepQuiet
      | fail text => cases stepQuiet
      | release => cases stepQuiet

end WorkerStep

open WorkerStep (percents)

/-- Percentages that rise from a first one on. -/
structure Rising (first : Float) (later : List Float) : Prop where
  all : ∀ percent ∈ first :: later, IsPercentage percent
  order : (first :: later).Pairwise (· < ·)

namespace Rising

variable {first next : Float} {later front behind : List Float}

theorem nil (known : IsPercentage first) : Rising first [] where
  all := by simpa using known
  order := List.pairwise_singleton _ _

theorem cons (known : IsPercentage first) (less : first < next) (rising : Rising next later) :
    Rising first (next :: later) where
  all := List.forall_mem_cons.mpr ⟨known, rising.all⟩
  order := by
    refine List.Pairwise.cons ?_ rising.order
    intro percent member
    rcases List.mem_cons.mp member with rfl | inLater
    · exact less
    · have above := (List.pairwise_cons.mp rising.order).1 percent inLater
      exact known.lt_trans (rising.all next (List.mem_cons_self ..)) (rising.all percent member)
        less above

theorem of_append (rising : Rising first (front ++ behind)) : Rising first front where
  all := fun percent member => rising.all percent (List.mem_append_left behind member)
  order := by
    have order := rising.order
    rw [← List.cons_append] at order
    exact (List.pairwise_append.mp order).1

theorem isPercentage_last (rising : Rising first later) : IsPercentage (later.getLastD first) :=
  rising.all _ List.getLastD_mem_cons

theorem getLastD_append : (front ++ behind).getLastD first = behind.getLastD (front.getLastD first) := by
  induction front generalizing first with
  | nil => rfl
  | cons head rest inductionHypothesis =>
      rw [List.cons_append, List.getLastD_cons, List.getLastD_cons, inductionHypothesis]

/-- Going on never leads back. -/
theorem last_le (rising : Rising first (front ++ behind)) :
    front.getLastD first ≤ (front ++ behind).getLastD first := by
  have reached := rising.of_append.isPercentage_last
  rw [getLastD_append]
  rcases List.mem_cons.mp (List.getLastD_mem_cons (l := behind) (a := front.getLastD first)) with
    same | later
  · rw [same]
    exact reached.le_refl
  · have order := rising.order
    rw [← List.cons_append] at order
    have above := (List.pairwise_append.mp order).2.2 _ List.getLastD_mem_cons _ later
    exact reached.le_of_lt (rising.all _ (List.mem_cons_of_mem _ (List.mem_append_right _ later)))
      above

end Rising

/-! ## The answers of a tracker -/

namespace Tracker

/-- The answers to the positions, in turn. -/
def answers (tracker : Tracker) : List Float → List (Option Float)
  | [] => []
  | position :: rest => (tracker.update position).1 :: (tracker.update position).2.answers rest

/-- Whatever comes in, the answers rise from what the tracker shows. -/
theorem answers_rising (tracker : Tracker) (positions : List Float)
    (known : IsPercentage tracker.percent) :
    Rising tracker.percent (tracker.answers positions).reduceOption := by
  induction positions generalizing tracker with
  | nil => exact .nil known
  | cons position rest inductionHypothesis =>
      rw [answers]
      rcases tracker.update_cases position with same | ⟨more, risen⟩
      · rw [same]
        exact inductionHypothesis tracker known
      · rw [risen]
        have reached := isPercentage_percentAt more
        exact .cons known more (inductionHypothesis ⟨tracker.total, _⟩ reached)

end Tracker

/-! ## The percentages of a worker -/

namespace Monitor

/-- The positions that the events of a stream tell, oldest first. -/
def positions (items : List StreamItem) : List Float :=
  items.filterMap fun
    | .event event => positionOf? event
    | .pause => none

/-- The percentages reported are the answers to the positions. -/
theorem reported_eq (monitor : Monitor) (items : List StreamItem) :
    monitor.reported items = (monitor.tracker.answers (positions items)).reduceOption := by
  induction items generalizing monitor with
  | nil => rfl
  | cons item rest inductionHypothesis =>
      cases item with
      | pause => exact inductionHypothesis monitor
      | event event =>
          rw [reported, inductionHypothesis]
          cases told : positionOf? event with
          | none => simp [handle, positions, told, Tracker.updateIfSome]
          | some position =>
              have first : positions (.event event :: rest) = position :: positions rest := by
                simp [positions, told]
              rw [first, Tracker.answers]
              simp only [handle, told, Tracker.updateIfSome]
              cases (monitor.tracker.update position).1 <;> rfl

theorem percents_reports (monitor : Monitor) (items : List StreamItem) :
    percents (monitor.reports items) = monitor.reported items := by
  induction items generalizing monitor with
  | nil => rfl
  | cons item rest inductionHypothesis =>
      cases item with
      | pause => exact inductionHypothesis monitor
      | event event =>
          simp only [reports, reported, WorkerStep.percents_append, inductionHypothesis]
          cases (monitor.handle event).1 <;> rfl

end Monitor

namespace Behaviour

/-- The percentages that a monitor answers the events of the engine with. -/
def answered (total : Float) : Behaviour → List Float
  | .runs items _ => (Monitor.start total).reported items
  | .refuses _ | .crashesAtStart => []

/-- A worker reports every percentage it is answered with, and no other. -/
theorem percents_reportSteps (total : Float) (behaviour : Behaviour) :
    percents (behaviour.reportSteps total) = behaviour.answered total := by
  cases behaviour with
  | refuses cause => rfl
  | crashesAtStart => rfl
  | runs items ending => exact Monitor.percents_reports (Monitor.start total) items

/-- The percentages a worker reports rise from zero. -/
theorem reportSteps_rising (total : Float) (behaviour : Behaviour) :
    Rising 0.0 (percents (behaviour.reportSteps total)) := by
  rw [percents_reportSteps]
  cases behaviour with
  | refuses cause => exact .nil isPercentage_zero
  | crashesAtStart => exact .nil isPercentage_zero
  | runs items ending =>
      rw [answered, Monitor.reported_eq]
      exact Tracker.answers_rising (.start total) (Monitor.positions items) isPercentage_zero

end Behaviour

end Montage.Export
