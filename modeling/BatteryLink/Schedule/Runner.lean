import BatteryLink.Schedule.Agenda
import BatteryLink.Schedule.Plan
/-!
A runner of jobs. A handle stands for a planned job; each time the job is due the handle starts a
run of it and waits for the end of the run. Cancelling a handle prevents further runs and never
disturbs a run that has begun.

The runner does not know what jobs do. Whoever uses it starts a job when a run begins and reports
when the run has ended.
-/
namespace BatteryLink

abbrev HandleId := Nat
abbrev RunId := Nat

inductive Phase where
  | starting
  | delayed
  | running (run : RunId)
  /-- Between two runs. -/
  | resting
  | ended (cancelled : Bool)
  deriving DecidableEq, Repr

structure Handle where
  id : HandleId
  plan : Plan
  phase : Phase := .starting
  stopRequested : Bool := false
  deriving DecidableEq, Repr

def Handle.ended (h : Handle) : Bool :=
  match h.phase with
  | .ended _ => true
  | _ => false

def Handle.standing (h : Handle) : String :=
  match h.phase with
  | .ended true => "cancelled"
  | .ended false => "done"
  | _ => "active"

inductive RunnerCall (ω : Type) where
  | wake (h : HandleId)
  | begin (r : RunId)
  | forgetHandle (h : HandleId)
  | forgetRun (r : RunId)
  /-- A shutdown is over for the one who asked for it. -/
  | stopped (who : ω)
  deriving Repr

/-- A run that has not been forgotten yet. -/
structure LiveRun where
  id : RunId
  handle : HandleId
  ended : Bool := false
  deriving DecidableEq, Repr

/-- One who waits until handles and runs have ended. -/
structure Waiter (ω : Type) where
  who : ω
  handles : List HandleId
  runs : List RunId

structure Runner (ω : Type) where
  handles : List Handle := []
  tracked : List HandleId := []
  live : List LiveRun := []
  nextRun : RunId := 0
  waiters : List (Waiter ω) := []

namespace Runner

variable {ω : Type}

abbrev Calls (ω : Type) := List (Agenda.Errand (RunnerCall ω))

def find? (r : Runner ω) (h : HandleId) : Option Handle := r.handles.find? (·.id == h)

def origin? (r : Runner ω) (run : RunId) : Option HandleId :=
  (r.live.find? (·.id == run)).map (·.handle)

def waitingFor? (r : Runner ω) (run : RunId) : Option Handle :=
  r.handles.find? (·.phase == .running run)

def pending (r : Runner ω) : Nat := r.tracked.length + r.live.length

def setHandle (r : Runner ω) (h : Handle) : Runner ω :=
  { r with handles := r.handles.map fun x => if x.id = h.id then h else x }

/-- Adds a handle for a job; nothing runs before its first turn. -/
def launch (r : Runner ω) (h : HandleId) (plan : Plan) : Runner ω × Calls ω :=
  ({ r with handles := r.handles ++ [{ id := h, plan }], tracked := r.tracked ++ [h] },
   [.post 0 (.wake h)])

def cancel (r : Runner ω) (h : HandleId) : Runner ω × Calls ω × Bool :=
  match r.find? h with
  | none => (r, [], false)
  | some x =>
    if x.ended then (r, [], false)
    else (r.setHandle { x with stopRequested := true }, [.post 0 (.wake h)], true)

/-- Waiters that no longer wait for a handle or a run, and calls to those who wait for nothing
more. -/
def dismiss (r : Runner ω) (handles : List HandleId) (runs : List RunId) : Runner ω × Calls ω :=
  let waiters := r.waiters.map fun w =>
    { w with
      handles := w.handles.filter fun h => !handles.contains h
      runs := w.runs.filter fun x => !runs.contains x }
  let isFree := fun w : Waiter ω => w.handles.isEmpty && w.runs.isEmpty
  ({ r with waiters := waiters.filter fun w => !isFree w },
   (waiters.filter isFree).map fun w => .post 1 (.stopped w.who))

def finishHandle (r : Runner ω) (h : Handle) (cancelled : Bool) : Runner ω × Calls ω :=
  let (r, calls) := (r.setHandle { h with phase := .ended cancelled }).dismiss [h.id] []
  (r, .post 0 (.forgetHandle h.id) :: calls)

def startRun (r : Runner ω) (h : Handle) : Runner ω × Calls ω :=
  let run := r.nextRun
  ({ r.setHandle { h with phase := .running run } with
      live := r.live ++ [{ id := run, handle := h.id }], nextRun := run + 1 },
   [.post 0 (.begin run)])

/-- Lets a handle sleep. One that would have to sleep for longer than a clock can tell ends
instead. -/
def sleep (r : Runner ω) (h : Handle) (phase : Phase) (span : Span) : Runner ω × Calls ω :=
  match span.onClock? with
  | some d => (r.setHandle { h with phase }, [.pause d (.wake h.id)])
  | none => r.finishHandle h false

/-- The turn of a handle that is to go on. -/
def proceed (r : Runner ω) (h : Handle) : Runner ω × Calls ω :=
  match h.phase, h.plan with
  | .starting, .after delay => r.sleep h .delayed delay
  | .starting, _ => r.startRun h
  | .delayed, _ => r.startRun h
  | .resting, _ => r.startRun h
  | .running _, .every rest => r.sleep h .resting rest
  | .running _, _ => r.finishHandle h false
  | .ended _, _ => (r, [])

def wake (r : Runner ω) (id : HandleId) : Runner ω × Calls ω :=
  match r.find? id with
  | none => (r, [])
  | some h =>
    if h.ended then (r, [])
    else if h.stopRequested then r.finishHandle h true
    else r.proceed h

/-- A run has ended. If it was given up, so is its handle. -/
def endRun (r : Runner ω) (run : RunId) (givenUp : Bool) : Runner ω × Calls ω :=
  let live := r.live.map fun x => if x.id = run then { x with ended := true } else x
  let r := { r with live }
  match r.waitingFor? run with
  | none =>
    let (r, calls) := r.dismiss [] [run]
    (r, .post 0 (.forgetRun run) :: calls)
  | some h =>
    let r := if givenUp then r.setHandle { h with stopRequested := true } else r
    let (r, calls) := r.dismiss [] [run]
    (r, .post 0 (.forgetRun run) :: .post 1 (.wake h.id) :: calls)

def forgetHandle (r : Runner ω) (h : HandleId) : Runner ω :=
  { r with tracked := r.tracked.filter (· != h) }

def forgetRun (r : Runner ω) (run : RunId) : Runner ω :=
  { r with live := r.live.filter (·.id != run) }

def cancelAll (r : Runner ω) : List HandleId → Runner ω × Calls ω
  | [] => (r, [])
  | h :: hs =>
    let (r, calls, _) := r.cancel h
    let (r, more) := r.cancelAll hs
    (r, calls ++ more)

/-- Cancels all handles and has `who` wait until they and all runs have ended, but for the run that
asks for it, if one does. Tells whether there is anything to wait for. -/
def shutdown (r : Runner ω) (who : ω) (current : Option RunId) : Runner ω × Calls ω × Bool :=
  let (r, calls) := r.cancelAll r.tracked
  let runs := r.live.filter fun x => some x.id != current
  let handlesLeft := r.tracked.filter fun h => (r.find? h).any fun x => !x.ended
  let runsLeft := (runs.filter fun x => !x.ended).map (·.id)
  if r.tracked.isEmpty && runs.isEmpty then (r, calls, false)
  else if handlesLeft.isEmpty && runsLeft.isEmpty then (r, calls ++ [.post 1 (.stopped who)], true)
  else ({ r with waiters := r.waiters ++ [⟨who, handlesLeft, runsLeft⟩] }, calls, true)

/-- The turn of a call of the runner's own. Those to others change nothing here. -/
def deliver (r : Runner ω) : RunnerCall ω → Runner ω × Calls ω
  | .wake h => r.wake h
  | .forgetHandle h => (r.forgetHandle h, [])
  | .forgetRun run => (r.forgetRun run, [])
  | .begin _ => (r, [])
  | .stopped _ => (r, [])

end Runner
end BatteryLink
