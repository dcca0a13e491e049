import BatteryLink.Proofs.Agenda
import BatteryLink.Proofs.Clock
/-!
Workshops. A runner has its calls on an agenda, among whatever else there is to do, and of the jobs
nothing is known but how their runs end. Jobs are started, handles cancelled and the runner shut down
at any time, by anybody. The history tells what has happened when.
-/
namespace BatteryLink

/-- How a job is to be run, with the number of seconds as it is asked for. -/
inductive Commission where
  | once
  | after (delay : Value)
  | every (interval : Value)

def Commission.plan : Commission → Except Fault Plan
  | once => .ok .once
  | after delay => Plan.afterSeconds delay
  | every interval => Plan.everySeconds interval

/-- How a run ends. A job that is given up takes its handle with it. -/
inductive RunEnd where
  | returned
  | raised
  | givenUp
  deriving DecidableEq, Repr

namespace Workshop

inductive Event where
  | launched (h : HandleId) (plan : Plan)
  | cancelled (h : HandleId)
  | created (run : RunId) (h : HandleId)
  | began (run : RunId)
  | ended (run : RunId) (how : RunEnd)
  /-- A shutdown is asked for, by a run or from outside. -/
  | stopping (who : TaskId) (current : Option RunId)
  /-- A shutdown is over, with so many handles and runs that are not forgotten. -/
  | stopped (who : TaskId) (pending : Nat)
  deriving DecidableEq, Repr

/-- What has happened, the latest first. -/
abbrev History := List (Binary64 × Event)

/-- The runner's calls have their turns beside those of others. -/
abbrev Item := Option (RunnerCall TaskId)

end Workshop

structure Workshop where
  agenda : Agenda Workshop.Item
  runner : Runner TaskId := {}
  /-- How many shutdowns have been asked for. -/
  shutdowns : Nat := 0
  history : Workshop.History := []

namespace Workshop

def opened (now : Binary64) : Workshop where
  agenda := { now }

def note (s : Workshop) (e : Event) : Workshop := { s with history := (s.agenda.now, e) :: s.history }

def after (s : Workshop) (runner : Runner TaskId) (calls : Runner.Calls TaskId) : Workshop :=
  { s with runner, agenda := s.agenda.runAll some calls }

/-- The turn of a handle. -/
def wake (s : Workshop) (h : HandleId) : Workshop :=
  let (runner, calls) := s.runner.wake h
  let woken := s.after runner calls
  if s.runner.nextRun < runner.nextRun then woken.note (.created s.runner.nextRun h) else woken

/-- The turn of an item. A job begins, or somebody goes on after a shutdown, or the runner does
something, or somebody else. -/
def deliver (s : Workshop) : Item → Workshop
  | none => s
  | some (.begin run) => s.note (.began run)
  | some (.stopped who) => s.note (.stopped who s.runner.pending)
  | some (.wake h) => s.wake h
  | some (.forgetHandle h) => { s with runner := s.runner.forgetHandle h }
  | some (.forgetRun run) => { s with runner := s.runner.forgetRun run }

def turn (s : Workshop) : Workshop :=
  match s.agenda.next? with
  | none => s
  | some (item, agenda) => { s with agenda }.deliver item

def launch (s : Workshop) (h : HandleId) (plan : Plan) : Workshop :=
  let (runner, calls) := s.runner.launch h plan
  (s.after runner calls).note (.launched h plan)

def cancel (s : Workshop) (h : HandleId) : Workshop :=
  let (runner, calls, _) := s.runner.cancel h
  (s.after runner calls).note (.cancelled h)

def finish (s : Workshop) (run : RunId) (how : RunEnd) : Workshop :=
  let (runner, calls) := s.runner.endRun run (how == .givenUp)
  (s.after runner calls).note (.ended run how)

/-- Where there is nothing to wait for a shutdown is over at once. -/
def shutdown (s : Workshop) (current : Option RunId) : Workshop :=
  let who := s.shutdowns
  let (runner, calls, waits) := s.runner.shutdown who current
  let asked := { s.after runner calls with shutdowns := who + 1 }.note (.stopping who current)
  if waits then asked else asked.note (.stopped who runner.pending)

/-- The events alone. -/
def History.events (l : History) : List Event := l.map (·.2)

def History.Ended (l : History) (run : RunId) : Prop := ∃ how, .ended run how ∈ l.events

/-- A run whose job is being done. -/
def isUnderWay (s : Workshop) (run : RunId) : Bool :=
  s.history.events.contains (.began run) && !s.history.events.any fun
    | .ended r _ => r == run
    | _ => false

/-- What can happen at any time: the next item on the agenda has its turn, or somebody does something
in between. -/
inductive Move where
  | turn
  | post (turns : Nat)
  | pause (delay : Binary64)
  | launch (h : HandleId) (c : Commission)
  | cancel (h : HandleId)
  | finish (run : RunId) (how : RunEnd)
  | shutdown (current : Option RunId)

/-- One move. What is not possible does not happen: a handle is new, or it is one that there is, and
only a run that is under way ends. -/
def step (s : Workshop) : Move → Workshop
  | .turn => s.turn
  | .post turns => { s with agenda := s.agenda.post turns none }
  | .pause delay => { s with agenda := s.agenda.pause delay none }
  | .launch h c =>
    match s.runner.find? h, c.plan with
    | none, .ok plan => s.launch h plan
    | _, _ => s
  | .cancel h => if (s.runner.find? h).isSome then s.cancel h else s
  | .finish run how => if s.isUnderWay run then s.finish run how else s
  | .shutdown current => s.shutdown current

def run (s : Workshop) (moves : List Move) : Workshop := moves.foldl step s

namespace History

def Launched (l : History) (h : HandleId) : Prop := ∃ plan, .launched h plan ∈ l.events

/-- Whether a handle is asked to stop by what happens. -/
def Asks (h : HandleId) (earlier : History) : Event → Prop
  | .cancelled i => i = h
  | .stopping _ _ => earlier.Launched h
  | .ended run .givenUp => .created run h ∈ earlier.events
  | _ => False

/-- A handle has been asked to stop. -/
def Asked (h : HandleId) : History → Prop
  | [] => False
  | (_, e) :: earlier => Asks h earlier e ∨ Asked h earlier

/-- When the latest run of a handle ended, if it has. -/
def lastEnd (h : HandleId) : History → Option Binary64
  | [] => none
  | (t, e) :: earlier =>
    match e with
    | .created _ i => if i = h then none else lastEnd h earlier
    | .ended run _ => if .created run h ∈ events earlier then some t else lastEnd h earlier
    | _ => lastEnd h earlier

/-- The time now is the time so long after another: a timer that was set then is due, and the clock
has not gone past it, unless it has not moved at all. -/
def Comes (start rest now : Binary64) : Prop :=
  Agenda.isDue now (⟨start.add rest, 0, ()⟩ : Timer Unit) = true ∧
    (now = start ∨ (start.add rest).lt now = false)

/-- What a run may be created for: its handle has been launched and not been asked to stop, none of
its runs is under way, there is no other unless it recurs, and if it does, the time to rest is
over. -/
structure MayStart (earlier : History) (now : Binary64) (h : HandleId) (plan : Plan) : Prop where
  launched : .launched h plan ∈ earlier.events
  free : ¬ earlier.Asked h
  alone : ∀ run, .created run h ∈ earlier.events → earlier.Ended run
  again : ∀ run, .created run h ∈ earlier.events → ∃ rest d t, plan = .every rest ∧
    rest.onClock? = some d ∧ earlier.lastEnd h = some t ∧ Comes t d now

/-- A shutdown may be over when all that was there before it was asked for has come to its end; then
nothing is left at all, unless something was launched after it was asked for. -/
def MayStop (earlier : History) (who : TaskId) (pending : Nat) : Prop :=
  ∀ (since before : History) (t : Binary64), earlier = since ++ (t, .stopping who none) :: before →
    (∀ run h, .created run h ∈ before.events → earlier.Ended run) ∧
    ((∀ h plan, .launched h plan ∉ since.events) → pending = 0)

/-- What an event asks of the time and of what happened before. -/
def Allows (earlier : History) (now : Binary64) : Event → Prop
  | .launched h _ => ¬ earlier.Launched h
  | .cancelled h => earlier.Launched h
  | .created run h => (∀ i, .created run i ∉ earlier.events) ∧ ∃ plan, earlier.MayStart now h plan
  | .began run => .began run ∉ earlier.events ∧ ∃ h, (now, .created run h) ∈ earlier
  | .ended run _ => .began run ∈ earlier.events ∧ ¬ earlier.Ended run
  | .stopping who _ => ∀ current, .stopping who current ∉ earlier.events
  | .stopped who pending => earlier.MayStop who pending

def Lawful : History → Prop
  | [] => True
  | (now, e) :: earlier => Allows earlier now e ∧ Lawful earlier

end History
end Workshop
end BatteryLink
