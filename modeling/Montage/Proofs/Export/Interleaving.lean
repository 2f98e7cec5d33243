import Montage.Export.Exporter
import Montage.Proofs.Export.WorkerProgram

/-!
Contract: calls of `start` and workers taking turns on one status.

A call reads whether an export runs, compiles, begins and launches a worker;
every worker goes through its own steps. Each of these is one move, and moves
of different calls and workers come in any order. `run_start` says that the
moves of a call that nobody disturbs are `start`, and `run_works` that the moves
of an undisturbed worker are `finish`.

Owns: the system of calls and exports, its moves, and its runs.
Does not own: what holds along a run.
-/

namespace Montage.Export

open Montage.Media

structure Request where
  timeline : Timeline Float
  catalog : IdMap (Asset Float)
  destination : String

/-- How far a call of `start` has come. -/
inductive Call where
  /-- It found no export running and is about to compile. -/
  | admitted (request : Request)
  /-- It has a job and is about to begin. -/
  | prepared (job : Job) (destination : String)
  /-- It has begun the export of this number. -/
  | begun (number : Nat)
  | refused (cause : Error)

inductive Ticket where
  /-- Its worker is not launched yet. -/
  | waiting (job : Job)
  /-- Its worker has these steps to take and has recorded no outcome. -/
  | working (pending : List WorkerStep)
  /-- An outcome is recorded; these steps are left. -/
  | settled (pending : List WorkerStep)

namespace Ticket

/-- True until an outcome of this very export is recorded. -/
def isOpen : Ticket → Bool
  | .waiting _ | .working _ => true
  | .settled _ => false

/-- The next step of the worker, and the export after it. -/
def next? : Ticket → Option (WorkerStep × Ticket)
  | .working (step :: rest) =>
    some (step, if step.recordsOutcome then .settled rest else .working rest)
  | .settled (step :: rest) => some (step, .settled rest)
  | .waiting _ | .working [] | .settled [] => none

end Ticket

/-- The status, the calls made so far, and the exports begun so far, oldest first. -/
structure System where
  status : Status
  calls : List Call
  exports : List Ticket

/-- One step of a call or of a worker. Calls and exports are named by their numbers. -/
inductive Move where
  /-- A new call looks whether an export is running. -/
  | ask (request : Request)
  | prepare (call : Nat)
  | enter (call : Nat)
  /-- The worker is launched; the engine will behave like this. -/
  | launch (number : Nat) (behaviour : Behaviour)
  | launchFails (number : Nat) (reason : String)
  /-- The worker of an export takes its next step. -/
  | work (number : Nat)

namespace System

def initial : System := ⟨.initial, [], []⟩

/-- Takes a move; there is no result when the call or export is not ready for it. -/
def step (program : Option String) (system : System) : Move → Option System
  | .ask request =>
    let call : Call := if system.status.running then .refused .exportInProgress else .admitted request
    some { system with calls := system.calls ++ [call] }
  | .prepare call =>
    match system.calls[call]? with
    | some (.admitted request) =>
      match jobOf program request.timeline request.catalog request.destination with
      | .error cause => some { system with calls := system.calls.set call (.refused cause) }
      | .ok job =>
        some { system with calls := system.calls.set call (.prepared job request.destination) }
    | _ => none
  | .enter call =>
    match system.calls[call]? with
    | some (.prepared job destination) =>
      match system.status.tryBegin destination with
      | .error cause => some { system with calls := system.calls.set call (.refused cause) }
      | .ok status =>
        some
          { status := status
            calls := system.calls.set call (.begun system.exports.length)
            exports := system.exports ++ [.waiting job] }
    | _ => none
  | .launch number behaviour =>
    match system.exports[number]? with
    | some (.waiting job) =>
      let worker : Ticket := .working (behaviour.steps job.duration)
      some { system with exports := system.exports.set number worker }
    | _ => none
  | .launchFails number reason =>
    match system.exports[number]? with
    | some (.waiting _) =>
      some
        { system with
          status := (launchFailure system.status reason).1
          exports := system.exports.set number (.settled []) }
    | _ => none
  | .work number =>
    match system.exports[number]?.bind Ticket.next? with
    | some (action, ticket) =>
      some
        { system with
          status := action.apply system.status
          exports := system.exports.set number ticket }
    | none => none

def run (program : Option String) (system : System) : List Move → Option System
  | [] => some system
  | move :: rest => (system.step program move).bind fun next => next.run program rest

variable {program : Option String}

@[simp] theorem run_nil (system : System) : system.run program [] = some system := rfl

@[simp] theorem run_cons (system : System) (move : Move) (rest : List Move) :
    system.run program (move :: rest) =
      (system.step program move).bind fun next => next.run program rest := rfl

theorem run_append (system : System) (first second : List Move) :
    system.run program (first ++ second) =
      (system.run program first).bind fun next => next.run program second := by
  induction first generalizing system with
  | nil => rfl
  | cons move rest inductionHypothesis =>
      simp only [List.cons_append, run_cons]
      cases system.step program move with
      | none => rfl
      | some next => exact inductionHypothesis next

/-- A worker's move performs the next step of its export and of no other. -/
theorem step_work_eq_some {system after : System} {number : Nat}
    (taken : system.step program (.work number) = some after) :
    ∃ ticket action rest, system.exports[number]? = some ticket ∧
      ticket.next? = some (action, rest) ∧
      after =
        { system with
          status := action.apply system.status
          exports := system.exports.set number rest } := by
  simp only [step] at taken
  split at taken
  · next action rest found =>
      obtain ⟨ticket, atNumber, next⟩ := Option.bind_eq_some_iff.mp found
      exact ⟨ticket, action, rest, atNumber, next, (Option.some.inj taken).symm⟩
  · cases taken

/-! ## Undisturbed calls and workers -/

theorem tryBegin_of_not_running {status : Status} (free : status.running = false)
    (destination : String) : status.tryBegin destination = .ok (.begun destination) := by
  simp [Status.tryBegin, free]

/-- The three moves of an undisturbed call begin an export exactly when `start` does. -/
theorem run_start (system : System) (request : Request) (status : Status) (job : Job) :
    start system.status program request.timeline request.catalog request.destination =
        .ok (status, job) ↔
      system.run program
          [.ask request, .prepare system.calls.length, .enter system.calls.length] =
        some
          { status := status
            calls := system.calls ++ [.begun system.exports.length]
            exports := system.exports ++ [.waiting job] } := by
  cases free : system.status.running with
  | true => simp [start, step, free]
  | false =>
      cases compiled : jobOf program request.timeline request.catalog request.destination with
      | error cause => simp [start, step, free, compiled]
      | ok found =>
          simp [start, step, free, compiled, tryBegin_of_not_running free]

/-- Left alone, a worker takes all its steps and leaves the status that `finish` tells. -/
theorem run_works (system : System) (number : Nat) (pending : List WorkerStep)
    (working : system.exports[number]? = some (.working pending)
      ∨ system.exports[number]? = some (.settled pending)) :
    ∃ after, system.run program (List.replicate pending.length (.work number)) = some after ∧
      after.status = finish system.status pending := by
  induction pending generalizing system with
  | nil => exact ⟨system, rfl, rfl⟩
  | cons action rest inductionHypothesis =>
      have inside : number < system.exports.length := by
        rcases working with found | found <;>
          exact (List.getElem?_eq_some_iff.mp found).1
      obtain ⟨ticket, next, kept⟩ : ∃ ticket,
          system.exports[number]?.bind Ticket.next? = some (action, ticket) ∧
            (ticket = .working rest ∨ ticket = .settled rest) := by
        rcases working with found | found
        · cases ends : action.recordsOutcome <;> simp [found, Ticket.next?, ends]
        · simp [found, Ticket.next?]
      obtain ⟨after, ran, status⟩ := inductionHypothesis
        { system with
          status := action.apply system.status
          exports := system.exports.set number ticket }
        (by simpa [inside] using kept)
      exact ⟨after, by simp [List.replicate_succ, step, next, ran], status⟩

end System

end Montage.Export
