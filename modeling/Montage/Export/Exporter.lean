import Montage.Export.Command
import Montage.Export.Run

/-!
Contract: exports one at a time.

Starting compiles the timeline first, so that a timeline that cannot be
exported is refused before anything changes. A started export has a worker,
whose steps may be taken one by one while the status is read in between.

Owns: starting, and the progress of workers.
-/

namespace Montage.Export

open Montage.Media

/-- What a start hands to the worker: the command, and the length to measure progress against. -/
structure Job where
  command : Command
  duration : Float
deriving DecidableEq, Repr

def jobOf (program : Option String) (timeline : Timeline Float) (catalog : IdMap (Asset Float))
    (destination : String) : Except Error Job :=
  match compile timeline catalog with
  | .error e => .error e.toError
  | .ok compiled =>
    let plan : Plan := ⟨compiled, destination⟩
    match plan.command program with
    | .error e => .error e
    | .ok command => .ok ⟨command, plan.duration⟩

/-- Starts an export: the new status and the job, or a refusal that changes nothing. -/
def start (status : Status) (program : Option String) (timeline : Timeline Float)
    (catalog : IdMap (Asset Float)) (destination : String) : Except Error (Status × Job) :=
  if status.running then .error .exportInProgress
  else
    match jobOf program timeline catalog destination with
    | .error e => .error e
    | .ok job =>
      match status.tryBegin destination with
      | .error e => .error e
      | .ok next => .ok (next, job)

/-- An export whose worker cannot be launched: it has failed, and the start is refused after all. -/
def launchFailure (status : Status) (reason : String) : Status × Error :=
  (status.fail (Status.failureMark ++ reason), .worker reason)

/-- Takes steps up to the next pause, or to the end; the pause is the first of the rest. -/
def advance (status : Status) : List WorkerStep → Status × List WorkerStep
  | [] => (status, [])
  | .pause :: rest => (status, .pause :: rest)
  | step :: rest => advance (step.apply status) rest

def finish (status : Status) (steps : List WorkerStep) : Status :=
  WorkerStep.applyAll status steps

def runToEnd (status : Status) (job : Job) (behaviour : Behaviour) : Status :=
  finish status (behaviour.steps job.duration)

end Montage.Export
