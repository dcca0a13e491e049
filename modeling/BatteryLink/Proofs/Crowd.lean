import BatteryLink.Proofs.Routine
import BatteryLink.Schedule.Runner
/-!
Crowds: a session and everything that is asked of it at the same time. Tasks take turns in any
order; each turn is one of the acts of a routine. The device answers what it likes and when it
likes, the host application refuses what it likes, and jobs are run by the session's own runner or
by a scheduler of the host application.

All that is known of a turn stands in a log, so that statements about a run are statements about
the crowd at its end.
-/
namespace BatteryLink

open Routine (Cause Next)

/-- A turn as it stands in the log: the session before it, its result, and the session after it with
what it did to others. -/
structure Entry where
  task : TaskId
  operation : Operation
  cause : Cause
  before : Session
  result : Except Trouble Next
  after : Session

/-- Something that was asked of a session and is not over, and the job and the run it is part of. -/
structure Task where
  id : TaskId
  operation : Operation
  job : Option JobId := none
  run : Option RunId := none

structure Member extends Task where
  waits : Next

structure Entrusted where
  id : JobId
  plan : Plan
  job : Job
  /-- Whether the session had been disposed of before. -/
  late : Bool
  cancelled : Bool := false
  begun : Bool := false
  finished : Bool := false

namespace Entrusted

/-- The jobs of a scheduler after a notice, which may come from a session that has been disposed
of. -/
def heed (late : Bool) (jobs : List Entrusted) : Notice → List Entrusted
  | .scheduled id plan job => { id, plan, job, late } :: jobs
  | .cancelled id => jobs.map fun j => if j.id = id then { j with cancelled := true } else j
  | .published _ _ | .reported _ _ | .granted _ => jobs

def beginAt (jobs : List Entrusted) (id : JobId) : List Entrusted :=
  jobs.map fun j => if j.id = id then { j with begun := true } else j

/-- The jobs after a run of one has ended. One that recurs goes on. -/
def finishAt (jobs : List Entrusted) (job : Option JobId) : List Entrusted :=
  jobs.map fun j => if some j.id = job ∧ j.plan.recurs = false then { j with finished := true } else j

end Entrusted

structure Ending where
  task : TaskId
  operation : Operation
  result : Except Trouble Outcome

/-- A runner with its calls: those that wait for their turn, and those that wait for their time. -/
structure Clockwork where
  runner : Runner TaskId := {}
  ready : List (Nat × RunnerCall TaskId) := []
  asleep : List (RunnerCall TaskId) := []

namespace Clockwork

def waiting : Agenda.Errand (RunnerCall TaskId) → Option (Nat × RunnerCall TaskId)
  | .post turns call => some (turns, call)
  | .pause _ _ => none

def sleeping : Agenda.Errand (RunnerCall TaskId) → Option (RunnerCall TaskId)
  | .post _ _ => none
  | .pause _ call => some call

def after (w : Clockwork) (runner : Runner TaskId) (calls : Runner.Calls TaskId) : Clockwork where
  runner := runner
  ready := w.ready ++ calls.filterMap waiting
  asleep := w.asleep ++ calls.filterMap sleeping

def heed (w : Clockwork) : Notice → Clockwork
  | .scheduled id plan _ =>
    let (runner, calls) := w.runner.launch id plan
    w.after runner calls
  | .cancelled id =>
    let (runner, calls, _) := w.runner.cancel id
    w.after runner calls
  | .published _ _ | .reported _ _ | .granted _ => w

/-- Takes out a call. One that was made before goes first, unless it has to wait for more turns. -/
def take? (w : Clockwork) (i : Nat) : Option (RunnerCall TaskId × Clockwork) :=
  match w.ready.drop i with
  | [] => none
  | (turns, call) :: rest =>
    if (w.ready.take i).all fun earlier => turns < earlier.1 then
      some (call, { w with ready := w.ready.take i ++ rest })
    else none

def wake (w : Clockwork) (i turns : Nat) : Clockwork :=
  match w.asleep[i]? with
  | none => w
  | some call => { w with ready := w.ready ++ [(turns, call)], asleep := w.asleep.eraseIdx i }

end Clockwork

structure Crowd where
  session : Session
  members : List Member := []
  nextTask : TaskId := 0
  jobs : List Entrusted := []
  clock : Clockwork := {}
  /-- All turns, the latest first. -/
  log : List Entry := []
  endings : List Ending := []

namespace Crowd

def start (config : Config) (ownsRunner : Bool) : Crowd where
  session := .start config ownsRunner

/-- The crowd with the session after a turn. The scheduler gets to know what concerns it. -/
def adopt (c : Crowd) (s : Session) : Crowd :=
  { c with
    session := s.takeNotices.1
    jobs := s.outbox.foldl (Entrusted.heed s.disposed) c.jobs
    clock := if s.ownsRunner then s.outbox.foldl Clockwork.heed c.clock else c.clock }

def member? (c : Crowd) (t : TaskId) : Option Member := c.members.find? (·.id == t)

def others (c : Crowd) (t : TaskId) : List Member := c.members.filter (·.id != t)

def keep (c : Crowd) (t : Task) (waits : Next) : Crowd :=
  { c with members := { t with waits } :: c.others t.id }

def finish (c : Crowd) (t : Task) (result : Except Trouble Outcome) : Crowd :=
  { c with
    members := c.others t.id
    jobs := Entrusted.finishAt c.jobs t.job
    clock := match t.run with
      | none => c.clock
      | some run =>
        let (runner, calls) := c.clock.runner.endRun run false
        c.clock.after runner calls
    endings := ⟨t.id, t.operation, result⟩ :: c.endings }

def goOn (c : Crowd) (t : Task) : Except Trouble Next → Crowd
  | .error e => c.finish t (.error e)
  | .ok (.done o) => c.finish t (.ok o)
  | .ok .stopRunner =>
    let (runner, calls, waits) := c.clock.runner.shutdown t.id none
    let c := { c with clock := c.clock.after runner calls }
    if waits then c.keep t .stopRunner else c.finish t (.ok .nothing)
  | .ok next => c.keep t next

def entry (c : Crowd) (t : Task) (cause : Cause) : Entry :=
  let (result, after) := (cause.turn t.id).exec c.session
  ⟨t.id, t.operation, cause, c.session, result, after⟩

def advance (c : Crowd) (t : Task) (cause : Cause) : Crowd :=
  let e := c.entry t cause
  ({ c with log := e :: c.log }.adopt e.after).goOn t e.result

def spawn (c : Crowd) (o : Operation) (job : Option JobId) (run : Option RunId) : Crowd :=
  { c with nextTask := c.nextTask + 1 }.advance ⟨c.nextTask, o, job, run⟩ (.started o)

/-- An act that takes no time. -/
def atOnce (c : Crowd) (turn : Turn Bool) : Crowd := c.adopt (turn.exec c.session).2

def job? (c : Crowd) (id : JobId) : Option Entrusted := c.jobs.find? (·.id == id)

def begin (c : Crowd) (id : JobId) (run : Option RunId) : Crowd :=
  match c.job? id with
  | none => c
  | some j => { c with jobs := Entrusted.beginAt c.jobs id }.spawn j.job.operation (some id) run

/-- The turn of a call of the session's own runner. -/
def deliver (c : Crowd) : RunnerCall TaskId → Crowd
  | .begin run =>
    match c.clock.runner.origin? run with
    | none => c
    | some id => c.begin id (some run)
  | .stopped t =>
    match c.member? t with
    | some ⟨task, .stopRunner⟩ => c.finish task (.ok .nothing)
    | _ => c
  | call =>
    let (runner, calls) := c.clock.runner.deliver call
    { c with clock := c.clock.after runner calls }

/-- Whether the host application can ask for an operation. -/
def isOffered : Operation → Bool
  | .followUp _ _ => false
  | _ => true

/-- What can happen next. -/
inductive Move where
  | start (o : Operation)
  | answer (t : TaskId) (now : Moment) (a : Answered)
  | rest (t : TaskId)
  | grant (t : TaskId)
  | refresh
  | post (channel : String) (value : Value)
  | host (h : Host)
  /-- The scheduler of the host application runs a job. -/
  | run (id : JobId)
  /-- The session's own runner goes on. -/
  | deliver (i : Nat)
  | wake (i turns : Nat)

/-- Whether a scheduler may run a job: not after it was cancelled, and only once if it does not
recur. -/
def mayRun (j : Entrusted) : Bool := !j.cancelled && (j.plan.recurs || !j.begun)

/-- One move. What is not possible does not happen. -/
def step (c : Crowd) : Move → Crowd
  | .start o => if isOffered o then c.spawn o none none else c
  | .answer t now a =>
    match c.member? t with
    | some ⟨task, .ask _ k⟩ => c.advance task (.answered now k a)
    | _ => c
  | .rest t =>
    match c.member? t with
    | some ⟨task, .pause w⟩ => c.advance task (.rested w)
    | _ => c
  | .grant t =>
    match c.member? t with
    | some ⟨task, .queue k⟩ =>
      if c.session.lock.holder = some t then c.advance task (.granted k) else c
    | _ => c
  | .refresh => c.atOnce Routine.requestRefresh
  | .post channel v => c.atOnce (Routine.postCommand channel v)
  | .host host => { c with session := { c.session with host } }
  | .run id =>
    match c.session.ownsRunner, c.job? id with
    | false, some j => if mayRun j then c.begin id none else c
    | _, _ => c
  | .deliver i =>
    match c.clock.take? i with
    | none => c
    | some (call, clock) => { c with clock }.deliver call
  | .wake i turns => { c with clock := c.clock.wake i turns }

def run (c : Crowd) (moves : List Move) : Crowd := moves.foldl step c

/-- A crowd that some moves lead to. -/
def Reachable (c : Crowd) : Prop := ∃ config ownsRunner moves, c = (start config ownsRunner).run moves

theorem Reachable.start (config : Config) (ownsRunner : Bool) :
    (Crowd.start config ownsRunner).Reachable := ⟨config, ownsRunner, [], rfl⟩

theorem Reachable.step {c : Crowd} (h : c.Reachable) (mv : Move) : (c.step mv).Reachable := by
  obtain ⟨config, ownsRunner, moves, rfl⟩ := h
  refine ⟨config, ownsRunner, moves ++ [mv], ?_⟩
  unfold run
  rw [List.foldl_append]
  rfl

/-- What holds at the start and is kept by every move holds at any time. -/
theorem Reachable.induction {P : Crowd → Prop}
    (begins : ∀ config ownsRunner, P (Crowd.start config ownsRunner))
    (goesOn : ∀ c mv, Reachable c → P c → P (c.step mv)) {c : Crowd} (h : c.Reachable) : P c := by
  obtain ⟨config, ownsRunner, moves, rfl⟩ := h
  have key : ∀ moves c, Reachable c → P c → P (c.run moves) := by
    intro moves
    induction moves with
    | nil => exact fun c _ h => h
    | cons mv moves ih => exact fun c hc h => ih (c.step mv) (hc.step mv) (goesOn c mv hc h)
  exact key moves _ (.start config ownsRunner) (begins config ownsRunner)

end Crowd

/-- Whether a task that waits for something goes on for this cause. -/
def Routine.Next.Resumes : Next → Cause → Prop
  | .ask _ k, .answered _ l _ => k = l
  | .pause w, .rested v => w = v
  | .queue k, .granted l => k = l
  | _, _ => False

theorem Routine.Next.Resumes.not_started {next : Next} {o : Operation} : ¬ next.Resumes (.started o) := by
  cases next <;> exact id

namespace Crowd

/-- Acts that take no time and leave a job to the scheduler. -/
inductive Instant : Turn Bool → Prop
  | refresh : Instant Routine.requestRefresh
  | post (channel : String) (v : Value) : Instant (Routine.postCommand channel v)

/-- All that a move can come to. -/
inductive Moved (c : Crowd) : Crowd → Prop
  | same : Moved c c
  | asked {o : Operation} : isOffered o = true → Moved c (c.spawn o none none)
  | resumed {m : Member} {cause : Cause} : m ∈ c.members → m.waits.Resumes cause →
      ((∃ k, m.waits = .queue k) → c.session.lock.holder = some m.id) →
      Moved c (c.advance m.toTask cause)
  | atOnce {turn : Turn Bool} : Instant turn → Moved c (c.atOnce turn)
  | host (h : Host) : Moved c { c with session := { c.session with host := h } }
  | ran {j : Entrusted} : c.session.ownsRunner = false → c.job? j.id = some j → mayRun j = true →
      Moved c (c.begin j.id none)
  | began {i : Nat} {run : RunId} {id : JobId} {clock : Clockwork} :
      c.clock.take? i = some (.begin run, clock) → clock.runner.origin? run = some id →
      Moved c ({ c with clock }.begin id (some run))
  | stopped {i : Nat} {m : Member} {clock : Clockwork} :
      c.clock.take? i = some (.stopped m.id, clock) → m ∈ c.members → m.waits = .stopRunner →
      Moved c ({ c with clock }.finish m.toTask (.ok .nothing))
  | ticked {i : Nat} {call : RunnerCall TaskId} {clock : Clockwork} :
      c.clock.take? i = some (call, clock) → Moved c { c with
        clock := clock.after (clock.runner.deliver call).1 (clock.runner.deliver call).2 }
  | woke (i turns : Nat) : Moved c { c with clock := c.clock.wake i turns }

theorem member?_eq_some {c : Crowd} {t : TaskId} {m : Member} (h : c.member? t = some m) :
    m ∈ c.members ∧ m.id = t :=
  ⟨List.mem_of_find?_eq_some h, by simpa using List.find?_some h⟩

theorem job?_eq_some {c : Crowd} {id : JobId} {j : Entrusted} (h : c.job? id = some j) :
    j ∈ c.jobs ∧ j.id = id :=
  ⟨List.mem_of_find?_eq_some h, by simpa using List.find?_some h⟩

theorem after_nil (w : Clockwork) : w.after w.runner [] = w := by
  simp [Clockwork.after]

theorem deliver_moved {c : Crowd} {i : Nat} {call : RunnerCall TaskId} {clock : Clockwork}
    (h : c.clock.take? i = some (call, clock)) : Moved c ({ c with clock }.deliver call) := by
  have idle : clock.runner.deliver call = (clock.runner, []) → Moved c { c with clock } := by
    intro hd
    have := Moved.ticked h
    rwa [hd, after_nil] at this
  cases call with
  | begin run =>
    unfold deliver
    dsimp only
    split
    · exact idle rfl
    · next id hid => exact .began h hid
  | stopped t =>
    unfold deliver
    dsimp only
    split
    · next task ht =>
      obtain ⟨hm, rfl⟩ := member?_eq_some ht
      exact .stopped (m := ⟨task, .stopRunner⟩) h hm rfl
    · exact idle rfl
  | wake _ | forgetHandle _ | forgetRun _ => exact .ticked h

theorem step_moved (c : Crowd) (mv : Move) : Moved c (c.step mv) := by
  cases mv with
  | start o =>
    unfold step
    dsimp only
    split
    · next h => exact .asked h
    · exact .same
  | answer t now a =>
    unfold step
    dsimp only
    split
    · next task x k h =>
      obtain ⟨hm, -⟩ := member?_eq_some h
      exact .resumed (m := ⟨task, .ask x k⟩) hm rfl (by simp)
    · exact .same
  | rest t =>
    unfold step
    dsimp only
    split
    · next task w h =>
      obtain ⟨hm, -⟩ := member?_eq_some h
      exact .resumed (m := ⟨task, .pause w⟩) hm rfl (by simp)
    · exact .same
  | grant t =>
    unfold step
    dsimp only
    split
    · next task k h =>
      obtain ⟨hm, rfl⟩ := member?_eq_some h
      split
      · next hl => exact .resumed (m := ⟨task, .queue k⟩) hm rfl fun _ => hl
      · exact .same
    · exact .same
  | refresh => exact .atOnce .refresh
  | post channel v => exact .atOnce (.post channel v)
  | host h => exact .host h
  | run id =>
    unfold step
    dsimp only
    split
    · next j hs hj =>
      obtain ⟨-, rfl⟩ := job?_eq_some hj
      split
      · next hr => exact .ran hs hj hr
      · exact .same
    · exact .same
  | deliver i =>
    unfold step
    dsimp only
    split
    · exact .same
    · next call clock h => exact deliver_moved h
  | wake i turns => exact .woke i turns

end Crowd
end BatteryLink
