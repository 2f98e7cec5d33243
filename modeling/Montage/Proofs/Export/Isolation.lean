import Mathlib.Data.List.Induction
import Montage.Proofs.Export.Interleaving

/-!
Contract: when exports stay apart.

An export is open from its beginning until an outcome of its own is recorded.
Exports stay apart when at most one is open at any time and no worker changes
the status of a later export. `isolated_iff_prompt` says exactly when a run has
this property: no worker that has already recorded its outcome gives its export
up while a later export is open. Such late releases exist, because giving up is
a move of its own after the outcome, and `overtaken_release_fails_next_export`
shows one.

Owns: the two properties, the invariant that carries them, and the late release.
-/

namespace Montage.Export

open Montage.Media

namespace System

variable {program : Option String}

/-- The run of `moves` from the beginning passes through a system. -/
def Passes (program : Option String) (moves : List Move) (system : System) : Prop :=
  ∃ before after, moves = before ++ after ∧ initial.run program before = some system

/-- The run of `moves` from the beginning takes `move` from one system to another. -/
def Takes (program : Option String) (moves : List Move) (system : System) (move : Move)
    (next : System) : Prop :=
  ∃ before after, moves = before ++ move :: after ∧
    initial.run program before = some system ∧ system.step program move = some next

def OneOpen (system : System) : Prop :=
  ∀ (first second : Nat) (firstTicket secondTicket : Ticket),
    system.exports[first]? = some firstTicket → firstTicket.isOpen = true →
    system.exports[second]? = some secondTicket → secondTicket.isOpen = true →
    first = second

/-- One export at a time, and no worker touches the status after a later export has begun. -/
structure Isolated (program : Option String) (moves : List Move) : Prop where
  oneOpen : ∀ system, Passes program moves system → system.OneOpen
  untouched : ∀ system number next, Takes program moves system (.work number) next →
    number + 1 < system.exports.length → next.status = system.status

/-- The worker of this export has recorded its outcome and only now gives the export up,
although a later export is open. -/
def ReleasesLate (system : System) (number : Nat) : Prop :=
  system.exports[number]? = some (.settled [.release]) ∧
    ∃ later ticket, number < later ∧ system.exports[later]? = some ticket ∧ ticket.isOpen = true

/-- No worker of the run gives its export up late. -/
def Prompt (program : Option String) (moves : List Move) : Prop :=
  ∀ system number next, Takes program moves system (.work number) next →
    ¬ system.ReleasesLate number

/-! ## The invariant -/

end System

/-- The steps left to a worker are in a lawful order. -/
def Ticket.Lawful : Ticket → Prop
  | .waiting _ => True
  | .working pending => WorkerStep.Lawful pending
  | .settled pending => pending = [] ∨ pending = [.release]

namespace System

variable {program : Option String}

/-- What holds while exports stay apart: only the last export can be open, and the status runs
exactly while it is. -/
structure Apart (system : System) : Prop where
  lawful : ∀ ticket ∈ system.exports, ticket.Lawful
  last : ∀ number ticket, system.exports[number]? = some ticket → ticket.isOpen = true →
    number + 1 = system.exports.length
  running : system.status.running = true ↔ ∃ ticket ∈ system.exports, ticket.isOpen = true
  phase : system.status.phase = .running ↔ system.status.running = true

theorem Apart.initial : initial.Apart where
  lawful := by simp [System.initial]
  last := by simp [System.initial]
  running := by simp [System.initial, Status.initial]
  phase := by simp [System.initial, Status.initial]

theorem Apart.oneOpen {system : System} (apart : system.Apart) : system.OneOpen := by
  intro first second firstTicket secondTicket atFirst firstOpen atSecond secondOpen
  have firstLast := apart.last first firstTicket atFirst firstOpen
  have secondLast := apart.last second secondTicket atSecond secondOpen
  omega

/-- Moves of calls that leave the status and the exports alone keep exports apart. -/
theorem Apart.withCalls {system : System} (apart : system.Apart) (calls : List Call) :
    { system with calls := calls }.Apart :=
  ⟨apart.lawful, apart.last, apart.running, apart.phase⟩

/-- A new export is open, and the only open one since nothing was running. -/
theorem Apart.enter {system : System} (apart : system.Apart)
    (free : system.status.running = false) (destination : String) (calls : List Call) (job : Job) :
    ({ status := .begun destination
       calls := calls
       exports := system.exports ++ [.waiting job] } : System).Apart where
  lawful := by
    intro ticket member
    rcases List.mem_append.mp member with old | new
    · exact apart.lawful ticket old
    · obtain rfl := List.mem_singleton.mp new
      trivial
  last := by
    intro number ticket found isOpen
    have inside := (List.getElem?_eq_some_iff.mp found).1
    simp only [List.length_append, List.length_cons, List.length_nil] at inside ⊢
    by_cases old : number < system.exports.length
    · rw [List.getElem?_append_left old] at found
      have busy := apart.running.mpr ⟨ticket, List.mem_of_getElem? found, isOpen⟩
      rw [free] at busy
      contradiction
    · omega
  running := by simp [Status.begun, Ticket.isOpen]
  phase := by simp [Status.begun]

theorem Apart.lawful_set {system : System} (apart : system.Apart) {number : Nat} {next : Ticket}
    (lawful : next.Lawful) : ∀ ticket ∈ system.exports.set number next, ticket.Lawful := by
  intro ticket member
  rcases List.mem_or_eq_of_mem_set member with old | rfl
  · exact apart.lawful ticket old
  · exact lawful

/-- An open export that stays open keeps exports apart, whatever is reported. -/
theorem Apart.progress {system : System} (apart : system.Apart) {number : Nat} {ticket next : Ticket}
    (found : system.exports[number]? = some ticket) (isOpen : ticket.isOpen = true)
    (nextOpen : next.isOpen = true) (lawful : next.Lawful) {status : Status}
    (running : status.running = system.status.running) (phase : status.phase = system.status.phase) :
    { system with status := status, exports := system.exports.set number next }.Apart where
  lawful := apart.lawful_set lawful
  last := by
    intro other otherTicket otherFound otherOpen
    simp only [List.length_set]
    by_cases same : number = other
    · subst same
      exact apart.last number ticket found isOpen
    · rw [List.getElem?_set_ne same] at otherFound
      exact apart.last other otherTicket otherFound otherOpen
  running := by
    have inside := (List.getElem?_eq_some_iff.mp found).1
    have busy := apart.running.mpr ⟨ticket, List.mem_of_getElem? found, isOpen⟩
    simp only [running, busy, true_iff]
    exact ⟨next, List.mem_set inside next, nextOpen⟩
  phase := by rw [running, phase]; exact apart.phase

/-- When the open export is settled, nothing is open and nothing runs. -/
theorem Apart.settle {system : System} (apart : system.Apart) {number : Nat} {ticket : Ticket}
    (found : system.exports[number]? = some ticket) (isOpen : ticket.isOpen = true)
    {pending : List WorkerStep} (lawful : pending = [] ∨ pending = [.release]) {status : Status}
    (running : status.running = false) (phase : status.phase ≠ .running) :
    { system with status := status, exports := system.exports.set number (.settled pending) }.Apart := by
  -- Whatever is open in the new list was open before, and so is the very export just settled.
  have closed : ∀ (other : Nat) (otherTicket : Ticket),
      (system.exports.set number (.settled pending))[other]? = some otherTicket →
        otherTicket.isOpen = false := by
    intro other otherTicket otherFound
    by_cases same : number = other
    · subst same
      rw [List.getElem?_set_self (List.getElem?_eq_some_iff.mp found).1] at otherFound
      cases otherFound
      rfl
    · rw [List.getElem?_set_ne same] at otherFound
      cases stillOpen : otherTicket.isOpen with
      | false => rfl
      | true =>
          have thisLast := apart.last number ticket found isOpen
          have otherLast := apart.last other otherTicket otherFound stillOpen
          omega
  refine ⟨apart.lawful_set lawful, ?_, ?_, ?_⟩
  · intro other otherTicket otherFound otherOpen
    rw [closed other otherTicket otherFound] at otherOpen
    contradiction
  · simp only [running, Bool.false_eq_true, false_iff]
    rintro ⟨other, member, otherOpen⟩
    obtain ⟨position, otherFound⟩ := List.mem_iff_getElem?.mp member
    rw [closed position other otherFound] at otherOpen
    contradiction
  · simp [running, phase]

/-- Settled tickets that run out of steps change nothing else. -/
theorem Apart.finish {system : System} (apart : system.Apart) {number : Nat}
    (found : system.exports[number]? = some (.settled [.release])) :
    { system with exports := system.exports.set number (.settled []) }.Apart := by
  have inside := (List.getElem?_eq_some_iff.mp found).1
  -- Settled before and after, so the same exports are open.
  have sameOpen : ∀ (other : Nat) (ticket : Ticket), ticket.isOpen = true →
      ((system.exports.set number (.settled []))[other]? = some ticket ↔
        system.exports[other]? = some ticket) := by
    intro other ticket isOpen
    by_cases same : number = other
    · subst same
      rw [List.getElem?_set_self inside, found]
      constructor <;> (intro equal; cases equal; cases isOpen)
    · rw [List.getElem?_set_ne same]
  have finished : Ticket.Lawful (.settled []) := Or.inl rfl
  refine ⟨apart.lawful_set finished, ?_, ?_, apart.phase⟩
  · intro other ticket otherFound isOpen
    simp only [List.length_set]
    exact apart.last other ticket ((sameOpen other ticket isOpen).mp otherFound) isOpen
  · rw [apart.running]
    constructor
    · rintro ⟨ticket, member, isOpen⟩
      obtain ⟨other, otherFound⟩ := List.mem_iff_getElem?.mp member
      exact ⟨ticket, List.mem_of_getElem? ((sameOpen other ticket isOpen).mpr otherFound), isOpen⟩
    · rintro ⟨ticket, member, isOpen⟩
      obtain ⟨other, otherFound⟩ := List.mem_iff_getElem?.mp member
      exact ⟨ticket, List.mem_of_getElem? ((sameOpen other ticket isOpen).mp otherFound), isOpen⟩

/-! ## Steps of workers -/

/-- What a worker's move can do while exports are apart: report or record the outcome of the open
export, or give up an export that is settled. -/
theorem Apart.work_cases {system next : System} {number : Nat} (apart : system.Apart)
    (taken : system.step program (.work number) = some next) :
    (number + 1 = system.exports.length ∧ next.Apart) ∨
      (system.exports[number]? = some (.settled [.release]) ∧
        next =
          { system with
            status := system.status.release
            exports := system.exports.set number (.settled []) }) := by
  obtain ⟨ticket, action, rest, found, advanced, rfl⟩ := step_work_eq_some taken
  have lawful := apart.lawful ticket (List.mem_of_getElem? found)
  cases ticket with
  | waiting job => cases advanced
  | working pending =>
      refine Or.inl ⟨apart.last number _ found rfl, ?_⟩
      cases lawful with
      | @report action rest quiet lawfulRest =>
          simp only [Ticket.next?, quiet, Bool.false_eq_true, if_false] at advanced
          cases advanced
          have lawfulNext : Ticket.Lawful (.working rest) := lawfulRest
          exact apart.progress found rfl rfl lawfulNext
            (WorkerStep.apply_running_of_report quiet) (WorkerStep.apply_phase_of_report quiet)
      | @verdict action decides =>
          have ends := WorkerStep.recordsOutcome_of_isVerdict decides
          simp only [Ticket.next?, ends, if_true] at advanced
          cases advanced
          exact apart.settle found rfl (Or.inr rfl)
            (WorkerStep.apply_running_of_outcome ends) (WorkerStep.apply_phase_of_outcome ends)
      | abandoned =>
          cases advanced
          exact apart.settle found rfl (Or.inl rfl)
            (WorkerStep.apply_running_of_outcome rfl) (WorkerStep.apply_phase_of_outcome rfl)
  | settled pending =>
      rcases lawful with rfl | rfl
      · cases advanced
      · cases advanced
        exact Or.inr ⟨found, rfl⟩

/-- While exports are apart, a settled export is given up late exactly when another one runs. -/
theorem Apart.releasesLate_iff {system : System} {number : Nat} (apart : system.Apart)
    (found : system.exports[number]? = some (.settled [.release])) :
    system.ReleasesLate number ↔ system.status.running = true := by
  rw [apart.running]
  constructor
  · rintro ⟨-, later, ticket, -, atLater, isOpen⟩
    exact ⟨ticket, List.mem_of_getElem? atLater, isOpen⟩
  · rintro ⟨ticket, member, isOpen⟩
    obtain ⟨other, atOther⟩ := List.mem_iff_getElem?.mp member
    have inside := (List.getElem?_eq_some_iff.mp found).1
    have last := apart.last other ticket atOther isOpen
    have different : number ≠ other := by
      rintro rfl
      rw [found] at atOther
      cases atOther
      cases isOpen
    exact ⟨found, other, ticket, by omega, atOther, isOpen⟩

theorem Apart.release_eq {system : System} (apart : system.Apart)
    (free : system.status.running = false) : system.status.release = system.status := by
  refine WorkerStep.release_of_ended free ?_
  rw [Ne, apart.phase, free]
  decide

/-- The worker of an earlier export leaves the status alone exactly when it is not late. -/
theorem Apart.status_eq_iff {system next : System} {number : Nat} (apart : system.Apart)
    (taken : system.step program (.work number) = some next)
    (earlier : number + 1 < system.exports.length) :
    next.status = system.status ↔ ¬ system.ReleasesLate number := by
  rcases apart.work_cases taken with ⟨last, -⟩ | ⟨found, rfl⟩
  · omega
  · rw [apart.releasesLate_iff found, Bool.not_eq_true]
    constructor
    · intro same
      cases busy : system.status.running with
      | false => rfl
      | true =>
          have kept : system.status.release = system.status := same
          have ended : (WorkerStep.apply system.status .release).running = false :=
            WorkerStep.apply_running_of_outcome rfl
          rw [WorkerStep.apply, kept, busy] at ended
          contradiction
    · exact apart.release_eq

theorem ReleasesLate.earlier {system : System} {number : Nat} (late : system.ReleasesLate number) :
    number + 1 < system.exports.length := by
  obtain ⟨-, later, ticket, after, atLater, -⟩ := late
  have inside := (List.getElem?_eq_some_iff.mp atLater).1
  omega

/-- Every move but a late release keeps exports apart. -/
theorem Apart.step {system next : System} {move : Move} (apart : system.Apart)
    (taken : system.step program move = some next)
    (prompt : ∀ number, move = .work number → ¬ system.ReleasesLate number) : next.Apart := by
  cases move with
  | ask request =>
      cases taken
      exact apart.withCalls _
  | prepare call =>
      simp only [System.step] at taken
      split at taken
      · split at taken <;>
          · cases taken
            exact apart.withCalls _
      · cases taken
  | enter call =>
      simp only [System.step] at taken
      split at taken
      · next job destination _ =>
          cases free : system.status.running with
          | true =>
              simp only [Status.tryBegin, free, if_true] at taken
              cases taken
              exact apart.withCalls _
          | false =>
              rw [tryBegin_of_not_running free] at taken
              cases taken
              exact apart.enter free destination _ job
      · cases taken
  | launch number behaviour =>
      simp only [System.step] at taken
      split at taken
      · next job found =>
          cases taken
          have lawful : Ticket.Lawful (.working (behaviour.steps job.duration)) :=
            behaviour.steps_lawful job.duration
          exact apart.progress found rfl rfl lawful rfl rfl
      · cases taken
  | launchFails number reason =>
      simp only [System.step] at taken
      split at taken
      · next job found =>
          cases taken
          exact apart.settle found rfl (Or.inl rfl) rfl (by simp [launchFailure, Status.fail])
      · cases taken
  | work number =>
      rcases apart.work_cases taken with ⟨-, after⟩ | ⟨found, rfl⟩
      · exact after
      · have free := prompt number rfl
        rw [apart.releasesLate_iff found, Bool.not_eq_true] at free
        rw [apart.release_eq free]
        exact apart.finish found

/-! ## Runs -/

/-- A run whose workers are never late as long as exports are apart keeps them apart. -/
theorem apart_of_passes {moves : List Move}
    (prompt : ∀ system number next, Takes program moves system (.work number) next →
      system.Apart → ¬ system.ReleasesLate number)
    {system : System} (passes : Passes program moves system) : system.Apart := by
  obtain ⟨before, after, rfl, ran⟩ := passes
  -- Along the moves made so far; the last of them is the one that could go wrong.
  induction before using List.reverseRecOn generalizing system after with
  | nil =>
      cases ran
      exact Apart.initial
  | append_singleton earlier move inductionHypothesis =>
      rw [run_append] at ran
      obtain ⟨previous, reached, taken⟩ := Option.bind_eq_some_iff.mp ran
      replace taken : previous.step program move = some system := by simpa using taken
      rw [List.append_assoc, List.singleton_append] at prompt
      have apart := inductionHypothesis (move :: after) reached prompt
      refine apart.step taken ?_
      rintro number rfl
      exact prompt previous number system ⟨earlier, after, rfl, reached, taken⟩ apart

theorem Takes.passes {moves : List Move} {system next : System} {move : Move}
    (takes : Takes program moves system move next) : Passes program moves system := by
  obtain ⟨before, after, split, reached, -⟩ := takes
  exact ⟨before, move :: after, split, reached⟩

/-- Exports stay apart in a run exactly when no worker of it gives up late. -/
theorem isolated_iff_prompt (program : Option String) (moves : List Move) :
    Isolated program moves ↔ Prompt program moves := by
  constructor
  · intro isolated system number next takes late
    -- A late release while exports are apart would change the status of the later export.
    have apart : system.Apart := by
      refine apart_of_passes ?_ takes.passes
      intro system number next takes apart late
      obtain ⟨-, -, -, -, taken⟩ := id takes
      exact (apart.status_eq_iff taken late.earlier).mp
        (isolated.untouched system number next takes late.earlier) late
    obtain ⟨-, -, -, -, taken⟩ := id takes
    exact (apart.status_eq_iff taken late.earlier).mp
      (isolated.untouched system number next takes late.earlier) late
  · intro prompt
    have apart : ∀ system, Passes program moves system → system.Apart := fun system passes =>
      apart_of_passes (fun system number next takes _ => prompt system number next takes) passes
    refine ⟨fun system passes => (apart system passes).oneOpen, ?_⟩
    intro system number next takes earlier
    obtain ⟨-, -, -, -, taken⟩ := id takes
    exact ((apart system takes.passes).status_eq_iff taken earlier).mpr
      (prompt system number next takes)

/-! ## A late release -/

/-- A song of ten seconds, placed once and exported as sound. -/
def songRequest (destination : String) : Request where
  timeline := ⟨[⟨⟨"song"⟩, 0.0, none, none, 1.0, 100.0, 0⟩], none, .mp3⟩
  catalog := [(⟨"song"⟩, ⟨⟨"song"⟩, "/media/song", "song", 10.0, false, true, 0, 0⟩)]
  destination := destination

/-- The second export begins between the outcome of the first and its release; once the release
has failed the second, a third begins beside it. -/
def overtakingMoves : List Move :=
  [.ask (songRequest "/out/a.mp3"), .prepare 0, .enter 0, .launch 0 (.runs [] (.exits (.code 0))),
   .work 0, .work 0, .work 0, .ask (songRequest "/out/b.mp3"), .prepare 1, .enter 1, .work 0,
   .ask (songRequest "/out/c.mp3"), .prepare 2, .enter 2]

/-- The status and the open exports of a system. -/
def summary (system : System) : Status × List Bool :=
  (system.status, system.exports.map Ticket.isOpen)

/-- The release of the first export fails the second, and then two exports are open at once. -/
theorem overtaken_release_fails_next_export :
    (∃ system next, Takes none overtakingMoves system (.work 0) next ∧
      system.summary = (.begun "/out/b.mp3", [false, true]) ∧
      next.status = system.status.fail Status.abandonedMessage) ∧
    (∃ system, Passes none overtakingMoves system ∧ ¬ system.OneOpen) ∧
    ¬ Isolated none overtakingMoves := by
  have begun : (initial.run none (overtakingMoves.take 10)).map summary =
      some (.begun "/out/b.mp3", [false, true]) := by decide
  have failed : (initial.run none (overtakingMoves.take 10 ++ [.work 0])).map summary =
      some ((Status.begun "/out/b.mp3").fail Status.abandonedMessage, [false, true]) := by decide
  have crowded : (initial.run none overtakingMoves).map summary =
      some (.begun "/out/c.mp3", [false, true, true]) := by decide
  have passesCrowded : ∃ system, Passes none overtakingMoves system ∧ ¬ system.OneOpen := by
    obtain ⟨system, reached, shown⟩ := Option.map_eq_some_iff.mp crowded
    have opens : system.exports.map Ticket.isOpen = [false, true, true] := congrArg Prod.snd shown
    refine ⟨system, ⟨overtakingMoves, [], (List.append_nil _).symm, reached⟩, ?_⟩
    intro oneOpen
    have second : (system.exports.map Ticket.isOpen)[1]? = some true := by rw [opens]; rfl
    have third : (system.exports.map Ticket.isOpen)[2]? = some true := by rw [opens]; rfl
    rw [List.getElem?_map] at second third
    obtain ⟨secondTicket, atSecond, secondOpen⟩ := Option.map_eq_some_iff.mp second
    obtain ⟨thirdTicket, atThird, thirdOpen⟩ := Option.map_eq_some_iff.mp third
    have same := oneOpen 1 2 secondTicket thirdTicket atSecond secondOpen atThird thirdOpen
    contradiction
  refine ⟨?_, passesCrowded, ?_⟩
  · obtain ⟨system, reached, shown⟩ := Option.map_eq_some_iff.mp begun
    rw [run_append, reached] at failed
    obtain ⟨next, taken, shownNext⟩ := Option.map_eq_some_iff.mp failed
    refine ⟨system, next, ⟨overtakingMoves.take 10, overtakingMoves.drop 11, rfl, reached, ?_⟩,
      shown, ?_⟩
    · simpa using taken
    · rw [show next.status = _ from congrArg Prod.fst shownNext,
        show system.status = _ from congrArg Prod.fst shown]
  · intro isolated
    obtain ⟨system, passes, crowdedSystem⟩ := passesCrowded
    exact crowdedSystem (isolated.oneOpen system passes)

end System

end Montage.Export
