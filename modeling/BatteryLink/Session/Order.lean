import BatteryLink.Request
import BatteryLink.Session.Basic
/-!
Orders: commands that change the mode of the device. They run one at a time. An order that the
device takes is followed by a poll a second later, and its toggle is switched off after that poll;
the toggle of any other order is switched off at once.
-/
namespace BatteryLink.Order

def passiveToggle : String := "passiveActivate"
def manualToggle : String := "manualActivate"

/-- Where the slots of an activation are read from. -/
inductive SlotSource where
  /-- The settings of the session, as they are when a slot is read. -/
  | settings
  | given (slots : List SlotDraft)

def SlotSource.read (source : SlotSource) (s : Session) : List SlotDraft :=
  match source with
  | .settings => s.settings.slots.toList.map Slot.draft
  | .given slots => slots

def enabledSlots (slots : List SlotDraft) : List Nat :=
  (slots.zipIdx.filter fun (d, _) => d.enabled.truthy).map (·.2)

inductive Kind where
  | single (payload : String) (toggle : Option String)
  | manual (source : SlotSource)

/-- How far an activation has come: the slot that is being written, the slots after it, and how many
of all were taken. -/
structure Writing where
  source : SlotSource
  slot : Nat
  rest : List Nat
  attempted : Nat
  succeeded : Nat

inductive Stage where
  | single (toggle : Option String)
  | slot (w : Writing)

inductive Next where
  | ask (x : Exchange) (stage : Stage)
  | pause (w : Writing)
  | ended (t : Tally)

def singleTimeout : Int := 2000
def slotTimeout : Int := 3000

def slotPause : Nat := 300

def followUpDelay : Nat := 1000

def resetToggle (toggle : Option String) : Turn Unit :=
  match toggle with
  | none => return ()
  | some channel => do
    let _ ← Turn.publish channel (.value (.switch false))

/-- Plans the poll after an order that was taken. -/
def scheduleFollowUp (toggle : Option String) : Turn Unit := do
  let id ← Turn.schedule (.after (.ofMilliseconds followUpDelay)) fun id => .followUp id toggle
  modify fun s => { s with pending := s.pending ++ [id] }

def finish (t : Tally) (toggle : Option String) : Turn Next := do
  modify fun s => { s with lastResult := some t }
  if t.ok then scheduleFollowUp toggle else resetToggle toggle
  return .ended t

/-- Whether the device took a request. Whatever goes wrong means that it did not, but for an
interrupt, which goes further. -/
def taken (a : Answered) : Turn Bool :=
  match a with
  | .error (.fault (.interrupt message)) => Turn.fail (.interrupt message)
  | .error _ | .ok none => return false
  | .ok (some octets) =>
    match Reply.accepted octets with
    | .ok b => return b
    | .error _ => return false

/-- The request that writes a slot. A slot that is not there is like one that was never set. -/
def slotRequest (slots : List SlotDraft) (index : Nat) : Check.Checked String :=
  let d := slots.getD index {}
  Request.manualSlot (.int index) d.start d.stop d.weekSet d.power

/-- A slot is done; a pause and the next one follow, or the end. -/
def slotDone (w : Writing) (ok : Bool) : Turn Next := do
  let succeeded := if ok then w.succeeded + 1 else w.succeeded
  match w.rest with
  | [] => finish ⟨succeeded, w.attempted⟩ (some manualToggle)
  | slot :: rest => return .pause { w with slot, rest, succeeded }

/-- Writes a slot with the fields that it has now. -/
def writeSlot (w : Writing) : Turn Next := do
  match slotRequest (w.source.read (← get)) w.slot with
  | .error _ => slotDone w false
  | .ok payload => return .ask (← Turn.exchange payload slotTimeout) (.slot w)

/-- An order that has got the lock. After the session has been disposed of nothing is done. -/
def begin (k : Kind) : Turn Next := do
  let s ← get
  if s.disposed then return .ended ⟨0, 0⟩
  else
    match k with
    | .single payload toggle =>
      return .ask (← Turn.exchange payload singleTimeout) (.single toggle)
    | .manual source =>
      match enabledSlots (source.read s) with
      | [] => finish ⟨0, 0⟩ (some manualToggle)
      | slot :: rest => writeSlot ⟨source, slot, rest, rest.length + 1, 0⟩

def proceed (stage : Stage) (a : Answered) : Turn Next := do
  let ok ← taken a
  match stage with
  | .single toggle => finish ⟨if ok then 1 else 0, 1⟩ toggle
  | .slot w => slotDone w ok

/-- Passes the lock on to the task that has waited longest. -/
def release : Turn Unit := do
  let s ← get
  match s.lock.queue with
  | [] => set { s with lock := {} }
  | task :: queue => do
    set { s with lock := ⟨some task, queue⟩ }
    Turn.notify (.granted task)

/-- An act of the task that has the lock. It gives the lock back at its end, however it ends. -/
def holding (t : Turn Next) : Turn Next := do
  let next ← tryCatch t fun e => do
    release
    throw e
  match next with
  | .ended r => do
    release
    return .ended r
  | next => return next

/-- Whether a task gets the lock at once. Otherwise it takes its place in the queue. -/
def acquire (self : TaskId) : Turn Bool := do
  let s ← get
  match s.lock.holder with
  | none => do
    set { s with lock := { s.lock with holder := some self } }
    return true
  | some _ => do
    set { s with lock := { s.lock with queue := s.lock.queue ++ [self] } }
    return false

end BatteryLink.Order
