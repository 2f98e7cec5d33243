import Montage.Export.Progress
import Montage.Export.Status

/-!
Contract: what one export does to the status.

A worker starts the engine, follows its events and records the outcome. How the
engine behaves is data: it may refuse to start, stream events and then end in
one of several ways, or take the worker down. Whatever happens, the worker
gives the export up last.

Owns: engine behaviours, the status steps of a worker, and their effect.
-/

namespace Montage.Export

open Montage.Files

/-- How a started engine ends, after its events. -/
inductive Ending where
  | streamFails (cause : Error)
  | waitFails (cause : Error)
  | exits (status : ExitStatus)
  /-- The worker itself stops. -/
  | crashes
deriving DecidableEq, Repr

inductive StreamItem where
  | event (event : EngineEvent)
  /-- The engine holds still until it is let go on. -/
  | pause
deriving DecidableEq, Repr

/-- Everything the engine does in one export. -/
inductive Behaviour where
  | refuses (cause : Error)
  | crashesAtStart
  | runs (items : List StreamItem) (ending : Ending)
deriving DecidableEq, Repr

inductive WorkerStep where
  /-- Has the engine started with the command of the export, which need not succeed. -/
  | spawn
  | message (text : String)
  | progress (percent : Float)
  | succeed
  | fail (message : String)
  | release
  | pause
deriving DecidableEq, Repr

namespace WorkerStep

def apply (status : Status) : WorkerStep → Status
  | .spawn => status
  | .message text => status.setMessage text
  | .progress percent => status.setProgress percent
  | .succeed => status.succeed
  | .fail text => status.fail text
  | .release => status.release
  | .pause => status

def applyAll (status : Status) (steps : List WorkerStep) : Status :=
  steps.foldl apply status

end WorkerStep

namespace Behaviour

def errorMessage (cause : Error) : String := Status.failureMark ++ cause.message

/-- What is said of an engine that exited badly: the end of its diagnostics, or its exit status. -/
def exitReason (tail : Tail) (status : ExitStatus) : String :=
  if tail.excerpt.isEmpty then "ffmpeg exited with " ++ status.text else tail.excerpt

def endingSteps (tail : Tail) : Ending → List WorkerStep
  | .streamFails cause => [.fail (errorMessage cause)]
  | .waitFails cause => [.fail (errorMessage cause)]
  | .exits status =>
    if status.isSuccess then [.succeed] else [.fail ("Export failed: " ++ exitReason tail status)]
  | .crashes => []

def followSteps (ending : Ending) : Monitor → List StreamItem → List WorkerStep
  | monitor, [] => endingSteps monitor.tail ending
  | monitor, .pause :: rest => .pause :: followSteps ending monitor rest
  | monitor, .event event :: rest =>
    let (risen, next) := monitor.handle event
    (risen.toList.map WorkerStep.progress) ++ followSteps ending next rest

/-- The steps of a worker between starting the engine and giving the export up. -/
def bodySteps (total : Float) : Behaviour → List WorkerStep
  | .refuses cause => [.fail (errorMessage cause)]
  | .crashesAtStart => []
  | .runs items ending => .message "Encoding..." :: followSteps ending (.start total) items

/-- All steps of a worker for an export of an expected length. -/
def steps (total : Float) (behaviour : Behaviour) : List WorkerStep :=
  .spawn :: behaviour.bodySteps total ++ [.release]

end Behaviour

end Montage.Export
