import Montage.Proofs.Compile.Verdict
import Montage.Proofs.Export.Interleaving

/-!
Contract: a start that is refused leaves no trace.

Calls of `start` come at any moment, before, during and after the work of
earlier workers. A call is refused while the status is running and when the
timeline does not compile, and then nothing has changed. The engine is started
by steps of workers alone. It is the first step of each, and there is no other in
its program, so there is one start for each worker that gets to run.

Owns: the exporter with its calls and workers, what one call does, and the
engines started along a run.
Does not own: calls that overtake one another, in `Proofs.Export.Interleaving`.
-/

namespace Montage.Export

open Montage.Media

/-! ## Whether there is a job -/

section Jobs

variable {timeline : Timeline Float} {catalog : IdMap (Asset Float)}

/-- A timeline has a job for every program and destination exactly when it compiles. -/
theorem exists_job {compiled : Compiled Float} (accepted : compile timeline catalog = .ok compiled)
    (program : Option String) (destination : String) :
    ∃ job, jobOf program timeline catalog destination = .ok job := by
  obtain ⟨command, found⟩ := exists_command accepted destination program
  exact ⟨⟨command, (Plan.mk compiled destination).duration⟩, by simp [jobOf, accepted, found]⟩

theorem jobOf_of_error {cause : CompileError Float} (rejected : compile timeline catalog = .error cause)
    (program : Option String) (destination : String) :
    jobOf program timeline catalog destination = .error cause.toError := by
  simp [jobOf, rejected]

theorem isConfiguration_toError (cause : CompileError Float) :
    cause.toError.isConfiguration = true := by
  cases cause <;> rfl

end Jobs

/-! ## The exporter -/

/-- Whether the worker of an export can be launched. -/
inductive Launch where
  | succeeds
  | fails (reason : String)

/-- The commands that a step of a worker starts the engine with. -/
def Job.spawnedBy (job : Job) : WorkerStep → List Command
  | .spawn => [job.command]
  | _ => []

theorem Job.spawnedBy_eq_nil (job : Job) {action : WorkerStep} (other : action ≠ .spawn) :
    job.spawnedBy action = [] := by
  cases action <;> first | rfl | exact absurd rfl other

/-- What became of a call of `start`. -/
inductive Started where
  | refused (cause : Error)
  /-- A handle was returned, and its worker has not got to run yet. -/
  | waiting (job : Job)
  /-- The worker has got to run and has these steps left. -/
  | working (job : Job) (pending : List WorkerStep)

namespace Started

/-- The command of a call whose worker has got to run. -/
def command? : Started → Option Command
  | .refused _ | .waiting _ => none
  | .working job _ => some job.command

/-- A handle was returned and its worker got to run. -/
def hasRun : Started → Bool
  | .refused _ | .waiting _ => false
  | .working .. => true

theorem isSome_command? (call : Started) : call.command?.isSome = call.hasRun := by
  cases call <;> rfl

end Started

/-- The status, the calls made so far, and the commands the engine was started with. -/
structure Exporter where
  status : Status
  calls : List Started
  spawned : List Command

inductive Event where
  | start (request : Request) (launch : Launch)
  /-- The worker of a call gets to run and takes its first step. The engine will behave like this. -/
  | run (call : Nat) (behaviour : Behaviour)
  /-- The worker of a call takes its next step. -/
  | work (call : Nat)

namespace Exporter

def initial : Exporter := ⟨.initial, [], []⟩

/-- One call of `start`, and its answer. -/
def start (program : Option String) (exporter : Exporter) (request : Request) (launch : Launch) :
    Started × Exporter :=
  let answer : Started × Status :=
    match Export.start exporter.status program request.timeline request.catalog
        request.destination with
    | .error cause => (.refused cause, exporter.status)
    | .ok (status, job) =>
      match launch with
      | .succeeds => (.waiting job, status)
      | .fails reason =>
        let (failed, cause) := launchFailure status reason
        (.refused cause, failed)
  (answer.1, { exporter with status := answer.2, calls := exporter.calls ++ [answer.1] })

/-- The worker of a call takes the first of its steps. -/
def take (exporter : Exporter) (call : Nat) (job : Job) : List WorkerStep → Exporter
  | [] => exporter
  | action :: rest =>
    { status := action.apply exporter.status
      calls := exporter.calls.set call (.working job rest)
      spawned := exporter.spawned ++ job.spawnedBy action }

/-- What happens next; a worker that is not ready for it changes nothing. -/
def step (program : Option String) (exporter : Exporter) : Event → Exporter
  | .start request launch => (exporter.start program request launch).2
  | .run call behaviour =>
    match exporter.calls[call]? with
    | some (.waiting job) => exporter.take call job (behaviour.steps job.duration)
    | _ => exporter
  | .work call =>
    match exporter.calls[call]? with
    | some (.working job pending) => exporter.take call job pending
    | _ => exporter

def run (program : Option String) (exporter : Exporter) (events : List Event) : Exporter :=
  events.foldl (step program) exporter

variable {program : Option String} {exporter : Exporter} {request : Request} {launch : Launch}

/-! ## One call -/

theorem start_of_running (busy : exporter.status.running = true) (request : Request)
    (launch : Launch) :
    exporter.start program request launch =
      (.refused .exportInProgress,
        { exporter with calls := exporter.calls ++ [.refused .exportInProgress] }) := by
  simp [start, Export.start, busy]

theorem start_of_error (free : exporter.status.running = false) {fault : CompileError Float}
    (rejected : compile request.timeline request.catalog = .error fault) (launch : Launch) :
    exporter.start program request launch =
      (.refused fault.toError,
        { exporter with calls := exporter.calls ++ [.refused fault.toError] }) := by
  simp [start, Export.start, free, jobOf_of_error rejected]

theorem start_of_job (free : exporter.status.running = false) {job : Job}
    (prepared : jobOf program request.timeline request.catalog request.destination = .ok job) :
    exporter.start program request .succeeds =
      (.waiting job,
        { exporter with
          status := .begun request.destination
          calls := exporter.calls ++ [.waiting job] }) := by
  simp [start, Export.start, free, prepared, System.tryBegin_of_not_running free]

theorem start_of_launchFailure (free : exporter.status.running = false) {job : Job}
    (prepared : jobOf program request.timeline request.catalog request.destination = .ok job)
    (reason : String) :
    exporter.start program request (.fails reason) =
      (.refused (.worker reason),
        { exporter with
          status := ⟨.failed, false, 0.0, "Error: " ++ reason, some request.destination⟩
          calls := exporter.calls ++ [.refused (.worker reason)] }) := by
  simp only [start, Export.start, free, Bool.false_eq_true, ↓reduceIte, prepared,
    System.tryBegin_of_not_running free]
  rfl

/-- What a call of `start` answers, and what it leaves behind. -/
structure Answered (program : Option String) (request : Request) (launch : Launch)
    (before : Exporter) (answer : Started) (after : Exporter) : Prop where
  recorded : after.calls = before.calls ++ [answer]
  noEngine : after.spawned = before.spawned
  noCommand : answer.command? = none
  untouched : ∀ cause, answer = .refused cause →
    cause = .exportInProgress ∨ cause.isConfiguration = true → after.status = before.status
  busy : before.status.running = true → answer = .refused .exportInProgress
  rejected : before.status.running = false → ∀ cause : Error,
    answer = .refused cause ∧ cause.isConfiguration = true ↔
      ∃ fault, compile request.timeline request.catalog = .error fault ∧ fault.toError = cause
  begins : before.status.running = false →
    (∃ compiled, compile request.timeline request.catalog = .ok compiled) →
      launch = .succeeds →
        (∃ job, jobOf program request.timeline request.catalog request.destination = .ok job ∧
          answer = .waiting job) ∧
        after.status = ⟨.running, true, 0.0, "Starting...", some request.destination⟩
  fails : before.status.running = false →
    (∃ compiled, compile request.timeline request.catalog = .ok compiled) →
      ∀ reason, launch = .fails reason →
        answer = .refused (.worker reason) ∧
        after.status = ⟨.failed, false, 0.0, "Error: " ++ reason, some request.destination⟩

theorem answered_of_running (busy : exporter.status.running = true) (request : Request)
    (launch : Launch) :
    Answered program request launch exporter (exporter.start program request launch).1
      (exporter.start program request launch).2 := by
  rw [start_of_running busy]
  have notFree : exporter.status.running ≠ false := by simp [busy]
  exact
    { recorded := rfl
      noEngine := rfl
      noCommand := rfl
      untouched := fun _ _ _ => rfl
      busy := fun _ => rfl
      rejected := fun free => absurd free notFree
      begins := fun free => absurd free notFree
      fails := fun free => absurd free notFree }

theorem answered_of_error (free : exporter.status.running = false) {fault : CompileError Float}
    (rejected : compile request.timeline request.catalog = .error fault) (launch : Launch) :
    Answered program request launch exporter (exporter.start program request launch).1
      (exporter.start program request launch).2 := by
  have noResult : ¬ ∃ compiled, compile request.timeline request.catalog = .ok compiled := by
    simp [rejected]
  rw [start_of_error free rejected]
  refine
    { recorded := rfl
      noEngine := rfl
      noCommand := rfl
      untouched := fun _ _ _ => rfl
      busy := fun busy => absurd busy (by simp [free])
      rejected := fun _ cause => ⟨?_, ?_⟩
      begins := fun _ compiles => absurd compiles noResult
      fails := fun _ compiles => absurd compiles noResult }
  · intro ⟨refused, _⟩
    exact ⟨fault, rejected, Started.refused.inj refused⟩
  · intro ⟨other, found, same⟩
    rw [rejected] at found
    obtain rfl := Except.error.inj found
    exact ⟨congrArg Started.refused same, same ▸ isConfiguration_toError fault⟩

theorem answered_of_ok (free : exporter.status.running = false) {compiled : Compiled Float}
    (accepted : compile request.timeline request.catalog = .ok compiled) (launch : Launch) :
    Answered program request launch exporter (exporter.start program request launch).1
      (exporter.start program request launch).2 := by
  have noFault : ¬ ∃ fault, compile request.timeline request.catalog = .error fault := by
    simp [accepted]
  obtain ⟨job, prepared⟩ := exists_job accepted program request.destination
  cases launch with
  | succeeds =>
      rw [start_of_job free prepared]
      exact
        { recorded := rfl
          noEngine := rfl
          noCommand := rfl
          untouched := nofun
          busy := fun busy => absurd busy (by simp [free])
          rejected := fun _ cause => ⟨nofun, fun ⟨fault, found, _⟩ => absurd ⟨fault, found⟩ noFault⟩
          begins := fun _ _ _ => ⟨⟨job, prepared, rfl⟩, rfl⟩
          fails := nofun }
  | fails reason =>
      have other : ∀ cause, Started.refused (.worker reason) = .refused cause →
          cause ≠ .exportInProgress ∧ cause.isConfiguration = false := by
        intro cause same
        obtain rfl := Started.refused.inj same
        exact ⟨nofun, rfl⟩
      rw [start_of_launchFailure free prepared]
      refine
        { recorded := rfl
          noEngine := rfl
          noCommand := rfl
          untouched := ?_
          busy := fun busy => absurd busy (by simp [free])
          rejected := fun _ cause => ⟨?_, fun ⟨fault, found, _⟩ => absurd ⟨fault, found⟩ noFault⟩
          begins := nofun
          fails := ?_ }
      · intro cause refused named
        obtain ⟨notBusy, notConfiguration⟩ := other cause refused
        rcases named with busy | configuration
        · exact absurd busy notBusy
        · exact absurd configuration (by simp [notConfiguration])
      · intro ⟨refused, configuration⟩
        exact absurd configuration (by simp [(other cause refused).2])
      · intro _ _ text same
        obtain rfl := Launch.fails.inj same
        exact ⟨rfl, rfl⟩

theorem start_answered (exporter : Exporter) (request : Request) (launch : Launch) :
    Answered program request launch exporter (exporter.start program request launch).1
      (exporter.start program request launch).2 := by
  cases busy : exporter.status.running with
  | true => exact answered_of_running busy request launch
  | false =>
      cases judged : compile request.timeline request.catalog with
      | error fault => exact answered_of_error busy judged launch
      | ok compiled => exact answered_of_ok busy judged launch

/-! ## The engines of a run -/

/-- Replacing a call leaves the calls before and after it. -/
theorem exists_split {calls : List Started} {call : Nat} {old : Started}
    (found : calls[call]? = some old) :
    ∃ front back, calls = front ++ old :: back ∧
      ∀ new, calls.set call new = front ++ new :: back := by
  obtain ⟨inside, atCall⟩ := List.getElem?_eq_some_iff.mp found
  refine ⟨calls.take call, calls.drop (call + 1), ?_, fun new => ?_⟩
  · rw [← atCall, List.getElem_cons_drop, List.take_append_drop]
  · rw [List.set_eq_take_append_cons_drop, if_pos inside]

/-- The engine was started once by each worker that got to run, with the command of its call. -/
structure SpawnedByWorkers (exporter : Exporter) : Prop where
  spawned : exporter.spawned.Perm (exporter.calls.filterMap Started.command?)
  /-- A worker that has got to run does not start the engine again. -/
  started : ∀ job pending, .working job pending ∈ exporter.calls → .spawn ∉ pending

theorem spawnedByWorkers_initial : initial.SpawnedByWorkers where
  spawned := .nil
  started := fun _ _ member => absurd member List.not_mem_nil

theorem SpawnedByWorkers.start (before : exporter.SpawnedByWorkers) (request : Request)
    (launch : Launch) : (exporter.start program request launch).2.SpawnedByWorkers := by
  have answered : Answered program request launch exporter _ _ :=
    start_answered exporter request launch
  constructor
  · rw [answered.recorded, answered.noEngine, List.filterMap_append, List.filterMap_cons,
      answered.noCommand]
    simpa using before.spawned
  · intro job pending member
    rw [answered.recorded, List.mem_append, List.mem_singleton] at member
    rcases member with earlier | answer
    · exact before.started job pending earlier
    · have noCommand := answered.noCommand
      rw [← answer] at noCommand
      cases noCommand

theorem SpawnedByWorkers.started_set (before : exporter.SpawnedByWorkers) (call : Nat) (job : Job)
    {rest : List WorkerStep} (once : .spawn ∉ rest) :
    ∀ other pending, .working other pending ∈ exporter.calls.set call (.working job rest) →
      .spawn ∉ pending := by
  intro other pending member
  rcases List.mem_or_eq_of_mem_set member with earlier | new
  · exact before.started other pending earlier
  · cases new
    exact once

/-- A worker that gets to run starts the engine, and that is all it starts. -/
theorem SpawnedByWorkers.takeFirst (before : exporter.SpawnedByWorkers) {call : Nat} {job : Job}
    (waiting : exporter.calls[call]? = some (.waiting job)) (behaviour : Behaviour) :
    (exporter.take call job (behaviour.steps job.duration)).SpawnedByWorkers := by
  obtain ⟨later, program, once⟩ := behaviour.exists_steps_eq_spawn_cons job.duration
  rw [program]
  refine ⟨?_, before.started_set call job once⟩
  obtain ⟨front, back, whole, replaced⟩ := exists_split waiting
  have counted := before.spawned
  rw [whole, List.filterMap_append, List.filterMap_cons] at counted
  simp only [take, replaced, List.filterMap_append, List.filterMap_cons]
  exact (List.perm_append_singleton _ _).trans
    ((counted.cons job.command).trans List.perm_middle.symm)

theorem SpawnedByWorkers.takeNext (before : exporter.SpawnedByWorkers) {call : Nat} {job : Job}
    {pending : List WorkerStep} (working : exporter.calls[call]? = some (.working job pending)) :
    (exporter.take call job pending).SpawnedByWorkers := by
  have once := before.started job pending (List.mem_of_getElem? working)
  cases pending with
  | nil => exact before
  | cons action rest =>
      rw [List.mem_cons, not_or] at once
      refine ⟨?_, before.started_set call job once.2⟩
      obtain ⟨front, back, whole, replaced⟩ := exists_split working
      have counted := before.spawned
      rw [whole, List.filterMap_append, List.filterMap_cons] at counted
      simp only [take, replaced, List.filterMap_append, List.filterMap_cons,
        job.spawnedBy_eq_nil (Ne.symm once.1), List.append_nil]
      exact counted

theorem SpawnedByWorkers.step (before : exporter.SpawnedByWorkers) (event : Event) :
    (exporter.step program event).SpawnedByWorkers := by
  cases event with
  | start request launch => exact before.start request launch
  | run call behaviour =>
      simp only [Exporter.step]
      split
      · next job waiting => exact before.takeFirst waiting behaviour
      · exact before
  | work call =>
      simp only [Exporter.step]
      split
      · next job pending working => exact before.takeNext working
      · exact before

theorem SpawnedByWorkers.run (before : exporter.SpawnedByWorkers) (events : List Event) :
    (exporter.run program events).SpawnedByWorkers := by
  induction events generalizing exporter with
  | nil => exact before
  | cons event rest inductionHypothesis => exact inductionHypothesis (before.step event)

theorem SpawnedByWorkers.length_spawned (counted : exporter.SpawnedByWorkers) :
    exporter.spawned.length = exporter.calls.countP Started.hasRun := by
  rw [List.Perm.length_eq counted.spawned, List.length_filterMap_eq_countP]
  simp only [Started.isSome_command?]

/-- A refused start changes nothing but the list of calls, no start runs the engine, and after any
events the engine was started once by each worker that got to run. -/
theorem refused_start_leaves_no_trace (program : Option String) :
    (∀ exporter request launch, Answered program request launch exporter
      (exporter.start program request launch).1 (exporter.start program request launch).2) ∧
      ∀ events, (initial.run program events).spawned.Perm
          ((initial.run program events).calls.filterMap Started.command?) ∧
        (initial.run program events).spawned.length =
          (initial.run program events).calls.countP Started.hasRun := by
  refine ⟨start_answered, fun events => ?_⟩
  have counted : (initial.run program events).SpawnedByWorkers := spawnedByWorkers_initial.run events
  exact ⟨counted.spawned, counted.length_spawned⟩

/-! ## Completed runs -/

theorem run_works {call : Nat} {job : Job} {pending : List WorkerStep}
    (working : exporter.calls[call]? = some (.working job pending)) :
    exporter.run program (List.replicate pending.length (.work call)) =
      { status := finish exporter.status pending
        calls := exporter.calls.set call (.working job [])
        spawned := exporter.spawned ++ pending.flatMap job.spawnedBy } := by
  have inside : call < exporter.calls.length := (List.getElem?_eq_some_iff.mp working).1
  induction pending generalizing exporter with
  | nil =>
      obtain ⟨front, back, whole, replaced⟩ := exists_split working
      rw [replaced, ← whole, List.flatMap_nil, List.append_nil]
      rfl
  | cons action rest inductionHypothesis =>
      have stepped : exporter.step program (.work call) =
          { status := action.apply exporter.status
            calls := exporter.calls.set call (.working job rest)
            spawned := exporter.spawned ++ job.spawnedBy action } := by
        simp only [step, working, take]
      rw [List.length_cons, List.replicate_succ, run, List.foldl_cons, stepped, ← run,
        inductionHypothesis (List.getElem?_set_self inside) (by simpa using inside), List.set_set,
        List.append_assoc, List.flatMap_cons]
      rfl

/-- A worker that takes all its steps undisturbed leaves the status that `runToEnd` tells, and has
started the engine once. -/
theorem run_completes {call : Nat} {job : Job}
    (waiting : exporter.calls[call]? = some (.waiting job)) (behaviour : Behaviour) :
    exporter.run program
        (.run call behaviour ::
          List.replicate (behaviour.steps job.duration).tail.length (.work call)) =
      { status := runToEnd exporter.status job behaviour
        calls := exporter.calls.set call (.working job [])
        spawned := exporter.spawned ++ [job.command] } := by
  have inside : call < exporter.calls.length := (List.getElem?_eq_some_iff.mp waiting).1
  obtain ⟨later, worker, once⟩ := behaviour.exists_steps_eq_spawn_cons job.duration
  have ran : exporter.step program (.run call behaviour) =
      { exporter with
        calls := exporter.calls.set call (.working job later)
        spawned := exporter.spawned ++ [job.command] } := by
    simp only [step, waiting, worker]
    rfl
  have noMore : later.flatMap job.spawnedBy = [] := by
    rw [List.flatMap_eq_nil_iff]
    intro action member
    exact job.spawnedBy_eq_nil fun isSpawn => once (isSpawn ▸ member)
  rw [worker, List.tail_cons, run, List.foldl_cons, ran, ← run,
    run_works (List.getElem?_set_self inside), List.set_set, noMore, List.append_nil, runToEnd,
    worker]
  rfl

end Exporter

end Montage.Export
