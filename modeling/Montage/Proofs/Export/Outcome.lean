import Montage.Proofs.Export.Excerpt
import Montage.Proofs.Export.Reporting

/-!
Contract: what one export does to the status, from its beginning to its end.

Until the outcome is recorded the status is running with a percentage that only
rises. After all steps the export has succeeded or failed, the percentage tells
which, and a failure is worded by what ended the export. The engine may do
anything; the worker may stop anywhere.

Owns: the status under way, the wording of failures, and the whole outcome.
Does not own: other exports that may have begun, in `Proofs.Export.Isolation`.
-/

namespace Montage.Export

open Files (ExitStatus)
open WorkerStep (applyAll percents)

/-- The status while an export to a destination is under way. -/
structure Status.UnderWay (destination : String) (status : Status) : Prop where
  running : status.running = true
  phase : status.phase = .running
  path : status.path = some destination
  zero_le : (0.0 : Float) ≤ status.progress
  le_cap : status.progress ≤ (99.0 : Float)

namespace Behaviour

/-- The engine started, its stream ended, and it exited successfully. -/
def succeeds : Behaviour → Bool
  | .runs _ (.exits status) => status.isSuccess
  | _ => false

/-- The last percentage that the events of the engine are answered with; zero without any. -/
def lastPercent (total : Float) (behaviour : Behaviour) : Float :=
  (behaviour.answered total).getLastD 0.0

/-- How the failure of an export is worded. -/
inductive Worded (total : Float) : Behaviour → String → Prop where
  | refused (cause : Error) : Worded total (.refuses cause) ("Error: " ++ cause.message)
  | streamBroke (items : List StreamItem) (cause : Error) :
      Worded total (.runs items (.streamFails cause)) ("Error: " ++ cause.message)
  | waitFailed (items : List StreamItem) (cause : Error) :
      Worded total (.runs items (.waitFails cause)) ("Error: " ++ cause.message)
  | exitedSilently {items : List StreamItem} (status : ExitStatus) (silent : Silent items) :
      Worded total (.runs items (.exits status))
        ("Export failed: " ++ ("ffmpeg exited with " ++ status.text))
  | exited {items : List StreamItem} (status : ExitStatus) {excerpt : String}
      (spoken : ¬ Silent items)
      (isExcerpt : excerpt = ((Monitor.start total).follow items).tail.excerpt)
      (nonempty : excerpt ≠ "") (short : excerpt.length ≤ 200) :
      Worded total (.runs items (.exits status)) ("Export failed: " ++ excerpt)
  | crashedAtStart : Worded total .crashesAtStart "Error: export worker stopped unexpectedly"
  | crashed (items : List StreamItem) :
      Worded total (.runs items .crashes) "Error: export worker stopped unexpectedly"

end Behaviour

/-! ## Under way -/

namespace WorkerStep

theorem reports_keep {steps : List WorkerStep}
    (quiet : ∀ step ∈ steps, step.recordsOutcome = false) (status : Status) :
    (applyAll status steps).running = status.running ∧
      (applyAll status steps).phase = status.phase ∧
      (applyAll status steps).path = status.path := by
  induction steps generalizing status with
  | nil => exact ⟨rfl, rfl, rfl⟩
  | cons step rest inductionHypothesis =>
      have stepQuiet := quiet step (List.mem_cons_self ..)
      have restQuiet : ∀ other ∈ rest, other.recordsOutcome = false :=
        fun other member => quiet other (List.mem_cons_of_mem step member)
      obtain ⟨running, phase, path⟩ := inductionHypothesis restQuiet (step.apply status)
      refine ⟨?_, ?_, ?_⟩
      · rw [applyAll_cons, running, apply_running_of_report stepQuiet]
      · rw [applyAll_cons, phase, apply_phase_of_report stepQuiet]
      · rw [applyAll_cons, path, apply_path]

end WorkerStep

namespace Behaviour

variable {total : Float} {behaviour : Behaviour} {done rest : List WorkerStep}

/-- Steps before the outcome are the first reports. -/
theorem quiet_prefix (split : behaviour.steps total = done ++ rest)
    (quiet : ∀ step ∈ done, step.recordsOutcome = false) :
    ∃ later, behaviour.reportSteps total = done ++ later := by
  rw [steps_eq] at split
  rcases List.append_eq_append_iff.mp split with ⟨beyond, isDone, isEnding⟩ | ⟨later, isReports, _⟩
  · -- Nothing of the ending is quiet, so nothing of it was done.
    rcases beyond with _ | ⟨first, others⟩
    · exact ⟨[], by simpa using isDone.symm⟩
    · exfalso
      have firstQuiet : first.recordsOutcome = false := quiet first (by simp [isDone])
      cases found : behaviour.verdict? total with
      | none =>
          rw [found] at isEnding
          obtain ⟨rfl, -⟩ := List.cons.inj isEnding
          cases firstQuiet
      | some verdict =>
          rw [found] at isEnding
          obtain ⟨rfl, -⟩ := List.cons.inj isEnding
          rw [WorkerStep.recordsOutcome_of_isVerdict (isVerdict_of_verdict? found)] at firstQuiet
          cases firstQuiet
  · exact ⟨later, isReports⟩

theorem begun_of_tryBegin {before begun : Status} {destination : String}
    (accepted : before.tryBegin destination = .ok begun) : begun = .begun destination := by
  unfold Status.tryBegin at accepted
  split at accepted
  · cases accepted
  · exact (Except.ok.inj accepted).symm

theorem quiet_of_reports (reports : behaviour.reportSteps total = done ++ rest) :
    ∀ step ∈ done, step.recordsOutcome = false := by
  intro step member
  refine reportSteps_quiet total behaviour step ?_
  rw [reports]
  exact List.mem_append_left rest member

theorem progress_eq (destination : String) (reports : behaviour.reportSteps total = done ++ rest) :
    (applyAll (.begun destination) done).progress = (percents done).getLastD 0.0 :=
  WorkerStep.progress_of_reports (quiet_of_reports reports) (.begun destination)

theorem underWay (destination : String) (reports : behaviour.reportSteps total = done ++ rest) :
    (applyAll (.begun destination) done).UnderWay destination := by
  have quiet := quiet_of_reports reports
  obtain ⟨running, phase, path⟩ := WorkerStep.reports_keep quiet (.begun destination)
  have rising := reportSteps_rising total behaviour
  rw [reports, WorkerStep.percents_append] at rising
  have percentage := rising.of_append.isPercentage_last
  rw [← progress_eq destination reports] at percentage
  exact ⟨running, phase, path, percentage.zero_le, percentage.le_cap⟩

theorem underWay_reportSteps (total : Float) (destination : String) (behaviour : Behaviour) :
    (applyAll (.begun destination) (behaviour.reportSteps total)).UnderWay destination :=
  underWay destination (List.append_nil (behaviour.reportSteps total)).symm

theorem progress_le (destination : String) {more : List WorkerStep}
    (reports : behaviour.reportSteps total = done ++ more ++ rest) :
    (applyAll (.begun destination) done).progress ≤
      (applyAll (.begun destination) (done ++ more)).progress := by
  have rising := reportSteps_rising total behaviour
  rw [reports, WorkerStep.percents_append] at rising
  have soFar := rising.of_append
  rw [WorkerStep.percents_append] at soFar
  rw [progress_eq destination reports, WorkerStep.percents_append]
  rw [List.append_assoc] at reports
  rw [progress_eq destination reports]
  exact soFar.last_le

/-! ## Ended -/

/-- What is said of a bad exit: the excerpt, or the exit status when the stream was silent. -/
theorem worded_exit (total : Float) (items : List StreamItem) (status : ExitStatus) :
    Worded total (.runs items (.exits status))
      ("Export failed: " ++ exitReason ((Monitor.start total).follow items).tail status) := by
  have isSilent := Monitor.excerpt_isEmpty_iff_silent total items
  unfold exitReason
  by_cases empty : ((Monitor.start total).follow items).tail.excerpt.isEmpty = true
  · rw [if_pos empty]
    exact .exitedSilently status (isSilent.mp empty)
  · rw [if_neg empty]
    refine .exited status (mt isSilent.mpr empty) rfl ?_ (Tail.excerpt_length_le _)
    rwa [String.isEmpty_iff] at empty

/-- A worker succeeds, or fails with a worded message, or stops without either. -/
theorem verdict?_cases (total : Float) (behaviour : Behaviour) :
    behaviour.succeeds = true ∧ behaviour.verdict? total = some .succeed ∨
      behaviour.succeeds = false ∧
        ((∃ text, behaviour.verdict? total = some (.fail text) ∧ Worded total behaviour text) ∨
          behaviour.verdict? total = none ∧ Worded total behaviour Status.abandonedMessage) := by
  cases behaviour with
  | refuses cause => exact Or.inr ⟨rfl, Or.inl ⟨_, rfl, .refused cause⟩⟩
  | crashesAtStart => exact Or.inr ⟨rfl, Or.inr ⟨rfl, .crashedAtStart⟩⟩
  | runs items ending =>
      cases ending with
      | streamFails cause => exact Or.inr ⟨rfl, Or.inl ⟨_, rfl, .streamBroke items cause⟩⟩
      | waitFails cause => exact Or.inr ⟨rfl, Or.inl ⟨_, rfl, .waitFailed items cause⟩⟩
      | crashes => exact Or.inr ⟨rfl, Or.inr ⟨rfl, .crashed items⟩⟩
      | exits status =>
          simp only [succeeds, verdict?, endingSteps]
          by_cases success : status.isSuccess = true
          · rw [if_pos success]
            exact Or.inl ⟨success, rfl⟩
          · rw [if_neg success]
            exact Or.inr ⟨Bool.eq_false_iff.mpr success,
              Or.inl ⟨_, rfl, worded_exit total items status⟩⟩

/-- The verdict stands: giving the export up changes nothing behind it. -/
theorem applyAll_verdict {status : Status} {verdict : WorkerStep}
    (decides : verdict.isVerdict = true) :
    applyAll status [verdict, .release] = verdict.apply status := by
  have ends := WorkerStep.recordsOutcome_of_isVerdict decides
  exact WorkerStep.release_of_ended (WorkerStep.apply_running_of_outcome ends)
    (WorkerStep.apply_phase_of_outcome ends)

/-- After all steps the export has succeeded, or it has failed with a worded message. -/
theorem applyAll_steps (total : Float) (destination : String) (behaviour : Behaviour) :
    behaviour.succeeds = true ∧
        applyAll (.begun destination) (behaviour.steps total) =
          (applyAll (.begun destination) (behaviour.reportSteps total)).succeed ∨
      behaviour.succeeds = false ∧ ∃ text, Worded total behaviour text ∧
        applyAll (.begun destination) (behaviour.steps total) =
          (applyAll (.begun destination) (behaviour.reportSteps total)).fail text := by
  rw [steps_eq, WorkerStep.applyAll_append]
  rcases verdict?_cases total behaviour with
    ⟨succeeds, verdict⟩ | ⟨fails, ⟨text, verdict, worded⟩ | ⟨verdict, worded⟩⟩
  · rw [verdict]
    exact Or.inl ⟨succeeds, applyAll_verdict rfl⟩
  · rw [verdict]
    exact Or.inr ⟨fails, text, worded, applyAll_verdict rfl⟩
  · rw [verdict]
    refine Or.inr ⟨fails, _, worded, ?_⟩
    -- Without a verdict the status is still running, and giving up makes it fail.
    exact if_pos (underWay_reportSteps total destination behaviour).phase

theorem progress_reportSteps (total : Float) (destination : String) (behaviour : Behaviour) :
    (applyAll (.begun destination) (behaviour.reportSteps total)).progress =
      behaviour.lastPercent total := by
  rw [progress_eq destination (List.append_nil (behaviour.reportSteps total)).symm, lastPercent,
    percents_reportSteps]

theorem lastPercent_ne_hundred (total : Float) (behaviour : Behaviour) :
    behaviour.lastPercent total ≠ 100.0 := by
  rw [lastPercent, ← percents_reportSteps]
  exact (reportSteps_rising total behaviour).isPercentage_last.ne_hundred

/-- The status when an export has ended. -/
structure Ended (total : Float) (destination : String) (behaviour : Behaviour) (final : Status) :
    Prop where
  running : final.running = false
  path : final.path = some destination
  phase : final.phase = if behaviour.succeeds then .succeeded else .failed
  hundred : final.progress = 100.0 ↔ final.phase = .succeeded
  lastPercent : behaviour.succeeds = false → final.progress = behaviour.lastPercent total
  done : behaviour.succeeds = true → final.message = "Done!"
  worded : behaviour.succeeds = false → Worded total behaviour final.message

theorem ended_of_succeed {destination : String} {reported : Status}
    (underWay : reported.UnderWay destination) (succeeds : behaviour.succeeds = true) :
    Ended total destination behaviour reported.succeed where
  running := rfl
  path := underWay.path
  phase := by
    rw [succeeds]
    rfl
  hundred := iff_of_true rfl rfl
  lastPercent := by
    intro fails
    rw [succeeds] at fails
    cases fails
  done := fun _ => rfl
  worded := by
    intro fails
    rw [succeeds] at fails
    cases fails

theorem ended_of_fail {destination text : String} {reported : Status}
    (underWay : reported.UnderWay destination)
    (percent : reported.progress = behaviour.lastPercent total)
    (fails : behaviour.succeeds = false) (worded : Worded total behaviour text) :
    Ended total destination behaviour (reported.fail text) where
  running := rfl
  path := underWay.path
  phase := by
    rw [fails]
    rfl
  hundred := by
    have notHundred : (reported.fail text).progress ≠ 100.0 := by
      intro hundred
      apply lastPercent_ne_hundred total behaviour
      rw [← percent]
      exact hundred
    exact iff_of_false notHundred Phase.noConfusion
  lastPercent := fun _ => percent
  done := by
    intro succeeds
    rw [fails] at succeeds
    cases succeeds
  worded := fun _ => worded

/-- What a whole export does to the status it begins with. -/
structure Outcome (total : Float) (destination : String) (behaviour : Behaviour) (begun : Status) :
    Prop where
  /-- Before the outcome is recorded the export is under way. -/
  underWay : ∀ done rest, behaviour.steps total = done ++ rest →
    (∀ step ∈ done, step.recordsOutcome = false) → (applyAll begun done).UnderWay destination
  /-- Until then the percentage never decreases. -/
  rising : ∀ done more rest, behaviour.steps total = done ++ more ++ rest →
    (∀ step ∈ done ++ more, step.recordsOutcome = false) →
      (applyAll begun done).progress ≤ (applyAll begun (done ++ more)).progress
  ended : Ended total destination behaviour (applyAll begun (behaviour.steps total))

/-- However the engine behaves, an export that has begun keeps its promises to the end. -/
theorem outcome_of_tryBegin {before begun : Status} {destination : String}
    (accepted : before.tryBegin destination = .ok begun) (total : Float) (behaviour : Behaviour) :
    Outcome total destination behaviour begun := by
  obtain rfl := begun_of_tryBegin accepted
  refine ⟨?_, ?_, ?_⟩
  · intro done rest split quiet
    obtain ⟨later, reports⟩ := quiet_prefix split quiet
    exact underWay destination reports
  · intro done more rest split quiet
    obtain ⟨later, reports⟩ := quiet_prefix split quiet
    exact progress_le destination reports
  · have reported := underWay_reportSteps total destination behaviour
    have percent := progress_reportSteps total destination behaviour
    rcases applyAll_steps total destination behaviour with
      ⟨succeeds, final⟩ | ⟨fails, text, worded, final⟩
    · rw [final]
      exact ended_of_succeed reported succeeds
    · rw [final]
      exact ended_of_fail reported percent fails worded

/-- The engine complains halfway and takes its worker down. -/
def crashHalfway : Behaviour :=
  .runs [.event (.progress "00:00:05.00" "time=00:00:05.00"), .event (.error "No space left")]
    .crashes

theorem outcome_of_crashHalfway :
    Status.initial.tryBegin "/out/a.mp4" = .ok (.begun "/out/a.mp4") ∧
      Outcome 10.0 "/out/a.mp4" crashHalfway (.begun "/out/a.mp4") := by
  have accepted : Status.initial.tryBegin "/out/a.mp4" = .ok (.begun "/out/a.mp4") := rfl
  exact ⟨accepted, outcome_of_tryBegin accepted 10.0 crashHalfway⟩

end Behaviour

end Montage.Export
