import BatteryLink.Session.Order
import BatteryLink.Session.Poll
import BatteryLink.Setting
/-!
Routines: everything that can be asked of a session and that may take time. A routine runs up to the
next thing that it has to wait for, and goes on from there when it is told to. Between two such
points nothing else happens to the session, so that every run of several routines is a sequence of
the acts below.
-/
namespace BatteryLink

inductive Operation where
  | connect
  | poll
  | probe
  | command (channel : String) (value : Value)
  | selectMode (mode : Value)
  | activatePassive (power countdown : Value)
  | activateManual (slots : List SlotDraft)
  | followUp (id : JobId) (toggle : Option String)
  | dispose

def Job.operation : Job → Operation
  | poll => .poll
  | followUp id toggle => .followUp id toggle
  | command channel value => .command channel value

/-- How an operation ends that does not fail. -/
inductive Outcome where
  | nothing
  | flag (b : Bool)
  | tally (t : Tally)
  deriving DecidableEq, Repr

namespace Routine

inductive Purpose where
  /-- Its success is the answer. -/
  | answer
  | refresh
  | followUp (id : JobId) (toggle : Option String)
  deriving DecidableEq, Repr

/-- What a routine does with the answer to its request. -/
inductive Asked where
  | firstProbe
  | probe
  | poll (stage : Poll.Stage) (purpose : Purpose)
  | order (stage : Order.Stage)

/-- What a routine waits for, or how it ends. -/
inductive Next where
  | ask (x : Exchange) (k : Asked)
  | pause (w : Order.Writing)
  | queue (k : Order.Kind)
  /-- The end of the jobs of the session's own runner. -/
  | stopRunner
  | done (o : Outcome)

/-- The end of the poll that follows an order. -/
def settle (id : JobId) (toggle : Option String) : Turn Unit := do
  modify fun s => { s with pending := s.pending.erase id }
  Order.resetToggle toggle

/-- What a poll does next, seen from what it is for. A follow-up is settled however it ends. -/
def conclude (purpose : Purpose) (t : Turn Poll.Next) : Turn Next :=
  match purpose with
  | .answer => do
    match ← t with
    | .ask x stage => return .ask x (.poll stage purpose)
    | .ended complete => return .done (.flag complete)
  | .refresh => do
    match ← t with
    | .ask x stage => return .ask x (.poll stage purpose)
    | .ended _ => return .done .nothing
  | .followUp id toggle => do
    let next ← tryCatch t fun e => do
      settle id toggle
      throw e
    match next with
    | .ask x stage => return .ask x (.poll stage purpose)
    | .ended _ => do
      settle id toggle
      return .done .nothing

def firstProbe : Turn Next := do
  Turn.report .unknown none
  return .ask (← Turn.exchange Request.discoverText Poll.firstTimeout) .firstProbe

/-- Polling starts whether or not the device answers the first probe. -/
def startPolling : Turn Next := do
  let s ← get
  if s.disposed then return .done .nothing
  else
    let id ← Turn.schedule (.every (.whole s.config.refreshInterval)) fun _ => .poll
    modify fun s => { s with pollJob := some id }
    return .done .nothing

def firstAnswer (a : Answered) : Turn Next :=
  match a with
  | .error (.refused _) => do
    Turn.record false
    startPolling
  | a => do
    let _ ← Poll.probed (← Turn.ofExcept a)
    startPolling

def probeAnswer (a : Answered) : Turn Next := do
  return .done (.flag (← Poll.probed (← Turn.ofExcept a)))

/-- What an order does next, seen as a routine. -/
def ofOrder (t : Turn Order.Next) : Turn Next := do
  match ← Order.holding t with
  | .ask x stage => return .ask x (.order stage)
  | .pause w => return .pause w
  | .ended r => return .done (.tally r)

def order (self : TaskId) (k : Order.Kind) : Turn Next := do
  if ← Order.acquire self then ofOrder (Order.begin k) else return .queue k

/-- The result of an order that came to nothing. -/
def refuseOrder : Turn Next := do
  modify fun s => { s with lastResult := some ⟨0, 0⟩ }
  return .done (.tally ⟨0, 0⟩)

def selectMode (self : TaskId) (mode : Value) : Turn Next :=
  match Request.select mode with
  | .error (.fault (.tooDeep doing)) => Turn.fail (.tooDeep doing)
  | .error _ => refuseOrder
  | .ok payload => order self (.single payload none)

def activatePassive (self : TaskId) (power countdown : Value) : Turn Next :=
  match Request.passive power countdown with
  | .error (.fault f) => Turn.fail f
  | .error (.refused _) => do
    Order.resetToggle (some Order.passiveToggle)
    refuseOrder
  | .ok payload => order self (.single payload (some Order.passiveToggle))

/-- The word that asks for a poll, on any channel. -/
def refreshWord : String := "REFRESH"

def isRefresh (v : Value) : Bool := v.asText? == some refreshWord

def change (f : Settings → Settings) : Turn Next := do
  modify fun s => { s with settings := f s.settings }
  return .done .nothing

def changeSlot (i : Fin 4) (f : Slot → Slot) : Turn Next :=
  change fun t => { t with slots := t.slots.set i.val (f t.slots[i]) }

/-- Goes on with a converted value. A value that is not right for its channel does nothing. -/
def withValue {α : Type} (converted : Setting.Converted α) (f : α → Turn Next) : Turn Next :=
  match converted with
  | .ok a => f a
  | .error (.refused _) => return .done .nothing
  | .error (.fault e) => Turn.fail e

def writeSlotField (i : Fin 4) (field : SlotField) (v : Value) : Turn Next :=
  match field with
  | .enabled => withValue (Setting.switch v) fun b => changeSlot i fun p => { p with enabled := b }
  | .start => withValue (Setting.time v) fun t => changeSlot i fun p => { p with start := t }
  | .stop => withValue (Setting.time v) fun t => changeSlot i fun p => { p with stop := t }
  | .weekdays => withValue (Setting.weekdays v) fun w => changeSlot i fun p => { p with weekSet := w }
  | .power => withValue (Setting.power v) fun w => changeSlot i fun p => { p with power := w }

/-- Toggles act only when they are switched on. -/
def whenOn (v : Value) (t : Turn Next) : Turn Next :=
  withValue (Setting.switch v) fun on => if on then t else return .done .nothing

def writeControl (self : TaskId) (c : Control) (v : Value) : Turn Next :=
  match c with
  | .modeSelect => withValue (Setting.mode v) fun mode => selectMode self (.text mode)
  | .passivePower =>
    withValue (Setting.power v) fun w =>
      change fun t => { t with passive := { t.passive with power := w } }
  | .passiveCountdown =>
    withValue (Setting.countdown v) fun n =>
      change fun t => { t with passive := { t.passive with countdown := n } }
  | .passiveActivate => whenOn v do
    let p := (← get).settings.passive
    activatePassive self (.int p.power) (.int p.countdown)
  | .manualActivate => whenOn v (order self (.manual .settings))

def command (self : TaskId) (channel : String) (v : Value) : Turn Next := do
  if (← get).disposed then return .done .nothing
  else if isRefresh v then conclude .refresh Poll.begin
  else
    match Channel.parse channel with
    | .error f => Turn.fail f
    | .ok none => return .done .nothing
    | .ok (some (.slot i field)) => writeSlotField i field v
    | .ok (some (.control c)) => writeControl self c v

def cancelPending : Turn Unit := do
  Turn.cancelJobs (← get).pending
  modify fun s => { s with pending := [] }

/-- Nothing new is begun from here on; exchanges that are under way finish. -/
def dispose : Turn Next := do
  modify fun s => { s with disposed := true }
  let s ← get
  Turn.cancelJobs (s.pollJob.toList ++ s.pending)
  set { (← get) with pollJob := none, pending := [] }
  return if s.ownsRunner then .stopRunner else .done .nothing

/-- Starts an operation as task `self`. -/
def perform (self : TaskId) : Operation → Turn Next
  | .connect => firstProbe
  | .poll => conclude .answer Poll.begin
  | .probe => do return .ask (← Turn.exchange Request.discoverText Poll.timeout) .probe
  | .command channel value => command self channel value
  | .selectMode mode => selectMode self mode
  | .activatePassive power countdown => activatePassive self power countdown
  | .activateManual slots => order self (.manual (.given slots))
  | .followUp id toggle => conclude (.followUp id toggle) Poll.begin
  | .dispose => dispose

def answered (now : Moment) (k : Asked) (a : Answered) : Turn Next :=
  match k with
  | .firstProbe => firstAnswer a
  | .probe => probeAnswer a
  | .poll stage purpose => conclude purpose (Poll.resume now stage a)
  | .order stage => ofOrder (Order.proceed stage a)

def rested (w : Order.Writing) : Turn Next := ofOrder (Order.writeSlot w)

def granted (k : Order.Kind) : Turn Next := ofOrder (Order.begin k)

/-- Asks the scheduler for a poll as soon as possible. -/
def requestRefresh : Turn Bool := do
  if (← get).disposed then return false
  else
    let _ ← Turn.schedule .once fun _ => .poll
    return true

def postCommand (channel : String) (v : Value) : Turn Bool := do
  if (← get).disposed then return false
  else
    let _ ← Turn.schedule .once fun _ => .command channel v
    return true

end Routine
end BatteryLink
