import BatteryLink.Request
import BatteryLink.Session.Basic
import BatteryLink.Status
/-!
Polls: a probe, and if the device answers it, a query for each part of its state. A failure ends the
poll and counts against the device.
-/
namespace BatteryLink.Poll

inductive Stage where
  | probe
  | query (method : Method) (rest : List Method)
  deriving DecidableEq, Repr

/-- What a poll does next. It is complete if the device answered the probe and all queries were
sent. -/
inductive Next where
  | ask (x : Exchange) (stage : Stage)
  | ended (complete : Bool)
  deriving DecidableEq, Repr

/-- Milliseconds to wait for the answer to the first probe: the device may still be booting. -/
def firstTimeout : Int := 5000

def timeout : Int := 2000

def identify (octets : Octets) : Turn Unit :=
  match Reply.decode octets with
  | .error (.refused _) => return ()
  | .error (.fault f) => Turn.fail f
  | .ok r =>
    match Identity.ofResult r with
    | .error f => Turn.fail f
    | .ok none => return ()
    | .ok (some i) => modify fun s => { s with identity := some i }

/-- Takes down the outcome of a probe. Any reply that is not empty shows that the device is
there. -/
def probed (reply : Option Octets) : Turn Bool :=
  match reply with
  | none | some [] => do
    Turn.record false
    return false
  | some octets => do
    Turn.record true
    identify octets
    return true

/-- Publishes the updates that the reply to a query gives, up to a failure. -/
def publishAll : List (String × Value) → Turn Unit
  | [] => return ()
  | (channel, v) :: us => do
    let _ ← Turn.publish channel (.value v)
    publishAll us

def absorb (m : Method) (reply : Option Octets) : Turn Unit :=
  match reply with
  | none => return ()
  | some octets =>
    match Reply.decode octets with
    | .error (.refused _) => return ()
    | .error (.fault f) => Turn.fail f
    | .ok r =>
      match Status.updates m r with
      | .error f => Turn.fail f
      | .ok us => publishAll us

def lastUpdateChannel : String := "lastUpdate"

/-- Sends the next query. After the last one the poll is complete. -/
def goOn (now : Moment) : List Method → Turn Next
  | [] => do
    modify fun s => { s with lastUpdate := some now, lastError := none }
    let _ ← Turn.publish lastUpdateChannel (.moment now)
    return .ended true
  | m :: rest => do
    if (← get).disposed then return .ended false
    else return .ask (← Turn.exchange (Request.queryText m) timeout) (.query m rest)

def troubleText : Trouble → String
  | .refused e => e.message
  | .fault f => f.shown

/-- The end of a poll that ran into trouble. Only an interrupt goes further. -/
def giveUp : Trouble → Turn Next
  | .fault (.interrupt message) => Turn.fail (.interrupt message)
  | t => do
    modify fun s => { s with lastError := some (troubleText t) }
    Turn.record false
    return .ended false

def begin : Turn Next := do
  if (← get).disposed then return .ended false
  else return .ask (← Turn.exchange Request.discoverText timeout) .probe

def proceed (now : Moment) (stage : Stage) (a : Answered) : Turn Next :=
  match stage with
  | .probe => do
    if ← probed (← Turn.ofExcept a) then goOn now Method.statusQueries else return .ended false
  | .query m rest => do
    absorb m (← Turn.ofExcept a)
    goOn now rest

def resume (now : Moment) (stage : Stage) (a : Answered) : Turn Next :=
  tryCatch (proceed now stage a) giveUp

end BatteryLink.Poll
