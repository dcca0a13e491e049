import BatteryLink.Schedule.Runner
import BatteryLink.Session.Routine
import BatteryLink.Simulation.Device
/-!
A world for one session: a simulated device, a clock that moves only while everything waits, and a
scheduler, which is either the session's own runner or a shelf on which jobs are stored until
somebody runs them. Tasks run in turns on one agenda; a task is one thing that was asked of the
session, and everything that happens is written down.
-/
namespace BatteryLink.Simulation

inductive Event where
  | sent (address : String) (port localPort : Int) (payload : String)
  | published (channel : String) (content : Published)
  | reported (status : DeviceStatus) (detail : Option String)
  | scheduled (id : JobId) (plan : Plan)
  | cancelled (id : JobId)

inductive Act where
  | perform (o : Operation)
  | post (channel : String) (value : Value)
  | refresh
  | record (reachable : Bool)
  | publish (channel : String) (value : Value)
  | cancelPending
  | setHost (h : Host)
  | updateDevice (d : Device)
  | setBreakdown (b : Option Breakdown)
  | advance (milliseconds : Nat)
  /-- Runs the stored jobs that run once, those included that are stored meanwhile. -/
  | runPending
  /-- Runs each stored job that recurs. -/
  | tick
  | gather (acts : List Act)

inductive Answer where
  | nothing
  | flag (b : Bool)
  | tally (t : Tally)
  | status (s : DeviceStatus)
  | count (n : Nat)
  | each (parts : List (Except Trouble Answer))

abbrev Result := Except Trouble Answer

def Answer.ofOutcome : Outcome → Answer
  | .nothing => .nothing
  | .flag b => .flag b
  | .tally t => .tally t

inductive Owner where
  | conductor
  | part (parent : TaskId) (index : Nat)
  | run (r : RunId)
  | nobody
  deriving DecidableEq, Repr

structure StoredJob where
  id : JobId
  plan : Plan
  job : Job
  cancelled : Bool := false

/-- Stored jobs that a task runs one after another. -/
structure Batch where
  recurring : Bool
  todo : List StoredJob := []
  count : Nat := 0

structure Task where
  id : TaskId
  owner : Owner
  batch : Option Batch := none
  /-- The results of the parts of a gathering. -/
  parts : List (Option Result) := []

inductive Cue where
  | start (t : TaskId) (a : Act)
  | receive (t : TaskId) (k : Routine.Asked) (reply : Option (Nat × Answered)) (disposes : Bool)
  | answered (t : TaskId) (k : Routine.Asked) (a : Answered)
  | rested (t : TaskId) (w : Order.Writing)
  | granted (t : TaskId) (k : Order.Kind)
  | nextJob (t : TaskId)
  | gathered (t : TaskId)
  | elapsed (t : TaskId)
  | runner (call : RunnerCall TaskId)

structure World where
  session : Session
  site : Site
  agenda : Agenda Cue := {}
  runner : Runner TaskId := {}
  jobs : List (JobId × Job) := []
  shelf : List StoredJob := []
  tasks : List Task := []
  nextTask : TaskId := 0
  queued : List (TaskId × Order.Kind) := []
  record : List (Nat × Event) := []
  /-- The result of the conductor's task. -/
  result : Option Result := none

namespace World

def milliseconds (w : World) : Nat := w.agenda.milliseconds

def now (w : World) : Moment := ⟨w.milliseconds⟩

def seconds (ms : Nat) : Binary64 := .ofRatio false ms 1000

/-- Adds an event to a record. Jobs that are cancelled one right after another stand in the order of
their numbers. -/
def addEvent (now : Nat) (e : Event) : List (Nat × Event) → List (Nat × Event)
  | [] => [(now, e)]
  | (t, f) :: r =>
    match e, f with
    | .cancelled i, .cancelled j => if i < j then (t, f) :: addEvent now e r else (now, e) :: (t, f) :: r
    | _, _ => (now, e) :: (t, f) :: r

def note (w : World) (e : Event) : World := { w with record := addEvent w.milliseconds e w.record }

def withRunner (w : World) (runner : Runner TaskId) (calls : Runner.Calls TaskId) : World :=
  { w with runner, agenda := w.agenda.runAll .runner calls }

def schedule (w : World) (id : JobId) (plan : Plan) (job : Job) : World :=
  if w.session.ownsRunner then
    let (runner, calls) := w.runner.launch id plan
    { w.withRunner runner calls with jobs := (id, job) :: w.jobs }
  else { w.note (.scheduled id plan) with shelf := w.shelf ++ [{ id, plan, job }] }

def cancel (w : World) (id : JobId) : World :=
  if w.session.ownsRunner then
    let (runner, calls, _) := w.runner.cancel id
    w.withRunner runner calls
  else
    let shelf := w.shelf.map fun j => if j.id = id then { j with cancelled := true } else j
    { w.note (.cancelled id) with shelf }

/-- Jobs that wait: those on the shelf are listed apart. -/
def pending (w : World) : Nat := w.runner.pending

def takeNotice (w : World) : Notice → World
  | .published channel content => w.note (.published channel content)
  | .reported status detail => w.note (.reported status detail)
  | .scheduled id plan job => w.schedule id plan job
  | .cancelled id => w.cancel id
  | .granted task =>
    match w.queued.find? (·.1 == task) with
    | none => w
    | some (_, k) =>
      { w with
        queued := w.queued.filter (·.1 != task)
        agenda := w.agenda.post 0 (.granted task k) }

/-- One act of the session, with everything that it does to others. -/
def act {α : Type} (w : World) (t : Turn α) : World × Except Trouble α :=
  let (result, session) := t.run.run w.session
  let (session, notices) := session.takeNotices
  (notices.foldl takeNotice { w with session }, result)

def task? (w : World) (t : TaskId) : Option Task := w.tasks.find? (·.id == t)

def setTask (w : World) (x : Task) : World :=
  { w with tasks := w.tasks.map fun y => if y.id = x.id then x else y }

def spawn (w : World) (owner : Owner) : World × TaskId :=
  ({ w with tasks := { id := w.nextTask, owner } :: w.tasks, nextTask := w.nextTask + 1 },
   w.nextTask)

def handIn (w : World) (parent : TaskId) (index : Nat) (r : Result) : World :=
  match w.task? parent with
  | none => w
  | some p =>
    let p := { p with parts := p.parts.set index (some r) }
    let w := w.setTask p
    if p.parts.all Option.isSome then { w with agenda := w.agenda.post 1 (.gathered parent) } else w

def finish (w : World) (t : TaskId) (r : Result) : World :=
  match w.task? t with
  | none => w
  | some x =>
    let w := { w with tasks := w.tasks.filter (·.id != t) }
    match x.owner with
    | .conductor => { w with result := some r }
    | .part parent index => w.handIn parent index r
    | .run run =>
      let (runner, calls) := w.runner.endRun run false
      w.withRunner runner calls
    | .nobody => w

/-- What a task was doing is over. If that was a job of a batch the next job follows, unless it
failed. -/
def conclude (w : World) (t : TaskId) (r : Result) : World :=
  match (w.task? t).bind (·.batch), r with
  | some b, .ok _ =>
    match w.task? t with
    | none => w
    | some x =>
      let w := w.setTask { x with batch := some { b with count := b.count + 1 } }
      { w with agenda := w.agenda.prepend (.nextJob t) }
  | _, r => w.finish t r

/-- Begins an exchange. If the request cannot be sent the routine goes on at once; otherwise the
wait for the reply begins. -/
def ask (w : World) (t : TaskId) (x : Exchange) (k : Routine.Asked) : World :=
  let (surroundings, disposes, site) := w.site.treat x
  let (acts, sent) := x.dispatch surroundings
  let w := acts.foldl (fun w a =>
    match a with
    | .send address port localPort payload => w.note (.sent address port localPort payload)
    | _ => w) { w with site }
  let agenda := match sent with
    | .error e => w.agenda.prepend (.answered t k (.error e))
    | .ok () =>
      let reply := x.inTime? surroundings
      let agenda := match reply with
        | some _ => w.agenda
        | none => w.agenda.later (seconds x.patience) 4 (.answered t k (.ok none))
      agenda.post 0 (.receive t k reply disposes)
  { w with agenda }

/-- The wait for a reply begins. -/
def receive (w : World) (t : TaskId) (k : Routine.Asked) (reply : Option (Nat × Answered))
    (disposes : Bool) : World :=
  let w :=
    if disposes then
      let (w, aside) := w.spawn .nobody
      { w with agenda := w.agenda.post 0 (.start aside (.perform .dispose)) }
    else w
  match reply with
  | none => w
  | some (0, a) => { w with agenda := w.agenda.post 1 (.answered t k a) }
  | some (delay, a) => { w with agenda := w.agenda.later (seconds delay) 3 (.answered t k a) }

def goOn (w : World) (t : TaskId) : Except Trouble Routine.Next → World
  | .error e => w.conclude t (.error e)
  | .ok (.done o) => w.conclude t (.ok (.ofOutcome o))
  | .ok (.ask x k) => w.ask t x k
  | .ok (.pause p) => { w with agenda := w.agenda.pause (seconds Order.slotPause) (.rested t p) }
  | .ok (.queue k) => { w with queued := w.queued ++ [(t, k)] }
  | .ok .stopRunner =>
    let (runner, calls, waits) := w.runner.shutdown t none
    let w := w.withRunner runner calls
    if waits then w else w.conclude t (.ok .nothing)

def advance (w : World) (t : TaskId) (turn : Turn Routine.Next) : World :=
  let (w, next) := w.act turn
  w.goOn t next

/-- An act that takes no time. -/
def answerAtOnce (w : World) (t : TaskId) (turn : Turn Answer) : World :=
  let (w, r) := w.act turn
  w.conclude t r

def startBatch (w : World) (t : TaskId) (recurring : Bool) : World :=
  match w.task? t with
  | none => w
  | some x =>
    let todo := if recurring then w.shelf.filter fun j => j.plan.recurs && !j.cancelled else []
    let w := w.setTask { x with batch := some { recurring, todo } }
    { w with agenda := w.agenda.prepend (.nextJob t) }

def nextJob (w : World) (t : TaskId) : World :=
  match w.task? t with
  | none => w
  | some x =>
    match x.batch with
    | none => w
    | some b =>
      match b.todo with
      | j :: todo =>
        let w := w.setTask { x with batch := some { b with todo } }
        let w := if b.recurring then w else { w with shelf := w.shelf.filter (·.id != j.id) }
        w.advance t (Routine.perform t j.job.operation)
      | [] =>
        let todo := if b.recurring then [] else w.shelf.filter fun j => !j.plan.recurs && !j.cancelled
        if todo.isEmpty then w.finish t (.ok (.count b.count))
        else
          let w := w.setTask { x with batch := some { b with todo } }
          { w with agenda := w.agenda.prepend (.nextJob t) }

def startParts (w : World) (parent : TaskId) : Nat → List Act → World
  | _, [] => w
  | i, a :: as =>
    let (w, t) := w.spawn (.part parent i)
    startParts { w with agenda := w.agenda.post 0 (.start t a) } parent (i + 1) as

def gather (w : World) (t : TaskId) (acts : List Act) : World :=
  match acts, w.task? t with
  | [], _ => w.conclude t (.ok (.each []))
  | _, none => w
  | acts, some x => (w.setTask { x with parts := acts.map fun _ => none }).startParts t 0 acts

def gathered (w : World) (t : TaskId) : World :=
  match w.task? t with
  | none => w
  | some x => w.conclude t (.ok (.each (x.parts.filterMap id)))

def start (w : World) (t : TaskId) : Act → World
  | .perform o => w.advance t (Routine.perform t o)
  | .post channel value => w.answerAtOnce t (.flag <$> Routine.postCommand channel value)
  | .refresh => w.answerAtOnce t (.flag <$> Routine.requestRefresh)
  | .record reachable => w.answerAtOnce t do
    Turn.record reachable
    return .status (← get).health.status
  | .publish channel value => w.answerAtOnce t (.flag <$> Turn.publish channel (.value value))
  | .cancelPending => w.answerAtOnce t do
    Routine.cancelPending
    return .nothing
  | .setHost host => { w with session := { w.session with host } }.conclude t (.ok .nothing)
  | .updateDevice d =>
    { w with site := { w.site with device := w.site.device.update d } }.conclude t (.ok .nothing)
  | .setBreakdown breakdown =>
    { w with site := { w.site with breakdown } }.conclude t (.ok .nothing)
  | .advance ms => { w with agenda := w.agenda.pause (seconds ms) (.elapsed t) }
  | .runPending => w.startBatch t false
  | .tick => w.startBatch t true
  | .gather acts => w.gather t acts

def beginRun (w : World) (run : RunId) : World :=
  match (w.runner.origin? run).bind fun id => w.jobs.find? (·.1 == id) with
  | none => w
  | some (_, job) =>
    let (w, t) := w.spawn (.run run)
    w.advance t (Routine.perform t job.operation)

def deliver (w : World) : Cue → World
  | .start t a => w.start t a
  | .receive t k reply disposes => w.receive t k reply disposes
  | .answered t k a => w.advance t (Routine.answered w.now k a)
  | .rested t p => w.advance t (Routine.rested p)
  | .granted t k => w.advance t (Routine.granted k)
  | .nextJob t => w.nextJob t
  | .gathered t => w.gathered t
  | .elapsed t => w.conclude t (.ok .nothing)
  | .runner (.begin run) => w.beginRun run
  | .runner (.stopped t) => w.conclude t (.ok .nothing)
  | .runner call =>
    let (runner, calls) := w.runner.deliver call
    w.withRunner runner calls

/-- Does what stands on the agenda until the conductor has a result, or nothing is left to do. -/
def settle : Nat → World → World
  | 0, w => w
  | fuel + 1, w =>
    if w.result.isSome then w
    else
      match w.agenda.next? with
      | none => w
      | some (cue, agenda) => settle fuel ({ w with agenda }.deliver cue)

/-- One act of the conductor, with all that happens until it is over, on a fresh record. -/
def step (fuel : Nat) (w : World) (a : Act) : World :=
  let (w, t) := { w with record := [], result := none }.spawn .conductor
  settle fuel { w with agenda := w.agenda.prepend (.start t a) }

def events (w : World) : List (Nat × Event) := w.record.reverse

end World
end BatteryLink.Simulation
