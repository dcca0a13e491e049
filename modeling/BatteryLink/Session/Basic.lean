import BatteryLink.Config
import BatteryLink.Exchange
import BatteryLink.Health
import BatteryLink.Identity
import BatteryLink.Published
import BatteryLink.Schedule.Plan
import BatteryLink.Settings
/-!
Sessions: what is kept about one device between exchanges, and the small acts that everything a
session does is made of. Acts that concern others (the host application, a scheduler, waiting tasks)
are written down as notices in the order in which they happen.
-/
namespace BatteryLink

abbrev JobId := Nat
abbrev TaskId := Nat

/-- Work that a session leaves to a scheduler. -/
inductive Job where
  | poll
  /-- The poll after a command that was accepted. When it is over the toggle of the command, if it
  has one, is switched off. -/
  | followUp (id : JobId) (toggle : Option String)
  | command (channel : String) (value : Value)

/-- What a session does to others. -/
inductive Notice where
  | published (channel : String) (content : Published)
  | reported (status : DeviceStatus) (detail : Option String)
  | scheduled (id : JobId) (plan : Plan) (job : Job)
  | cancelled (id : JobId)
  /-- The lock has passed to a task that was waiting for it. -/
  | granted (task : TaskId)

structure Host where
  /-- A channel, or `*` for all channels. -/
  publish : Option (String × String) := none
  status : Option String := none
  deriving DecidableEq, Repr

/-- The text with which a host refuses an update of a channel. -/
def Host.refusal? (h : Host) (channel : String) : Option String :=
  h.publish.bind fun (c, message) => if c = "*" ∨ c = channel then some message else none

/-- Commands that change the mode run one at a time; those that have to wait do so in order. -/
structure Lock where
  holder : Option TaskId := none
  queue : List TaskId := []
  deriving DecidableEq, Repr

structure Session where
  config : Config
  /-- Whether jobs run on a runner that belongs to the session and ends with it. -/
  ownsRunner : Bool
  health : Health
  settings : Settings := {}
  identity : Option Identity := none
  lastUpdate : Option Moment := none
  lastError : Option String := none
  lastResult : Option Tally := none
  disposed : Bool := false
  /-- The recurring poll. -/
  pollJob : Option JobId := none
  /-- Polls that follow accepted commands and have not finished. -/
  pending : List JobId := []
  nextJob : JobId := 1
  lock : Lock := {}
  host : Host := {}
  /-- Notices that nobody has taken yet. -/
  outbox : List Notice := []

/-- An act of a session: it may fail, and what was done up to there stays done. -/
abbrev Turn := ExceptT Trouble (StateM Session)

namespace Session

def start (config : Config) (ownsRunner : Bool) : Session where
  config := config
  ownsRunner := ownsRunner
  health := .initial config.failureThreshold

def endpoint (s : Session) : String := endpointText s.config.host s.config.port

/-- The session without the notices in its outbox, and those notices. -/
def takeNotices (s : Session) : Session × List Notice := ({ s with outbox := [] }, s.outbox)

end Session

namespace Turn

def notify (n : Notice) : Turn Unit := modify fun s => { s with outbox := s.outbox ++ [n] }

def fail {α : Type} (f : Fault) : Turn α := throw (.fault f)

def ofExcept {α : Type} : Except Trouble α → Turn α
  | .ok a => pure a
  | .error t => throw t

/-- Hands a value to the host application. Nothing is published while the device is not known to be
online, nor after the session has been disposed of. The result tells whether something was. -/
def publish (channel : String) (content : Published) : Turn Bool := do
  let s ← get
  if s.disposed || !s.health.isOnline then return false
  else
    match s.host.refusal? channel with
    | some message => fail (.host message)
    | none => do
      notify (.published channel content)
      return true

/-- Tells the host application the status of the device, unless the session has been disposed of.
A host that refuses it has nevertheless heard it. -/
def report (status : DeviceStatus) (detail : Option String) : Turn Unit := do
  let s ← get
  if s.disposed then return ()
  else do
    notify (.reported status detail)
    match s.host.status with
    | some message => fail (.host message)
    | none => return ()

def offlineDetail (endpoint : String) (failures : Nat) : String :=
  "Communication error: no response from " ++ endpoint ++ " after " ++ toString failures
    ++ " attempts"

/-- Takes down whether the device was reachable, and reports a change of its status. -/
def record (reachable : Bool) : Turn Unit := do
  let s ← get
  let health := s.health.record reachable
  set { s with health }
  match s.health.changed health with
  | none => return ()
  | some c =>
    report c.current
      (if c.current = .offline then some (offlineDetail s.endpoint c.failures) else none)

/-- Leaves a job to the scheduler. -/
def schedule (plan : Plan) (job : JobId → Job) : Turn JobId := do
  let s ← get
  set { s with nextJob := s.nextJob + 1 }
  notify (.scheduled s.nextJob plan (job s.nextJob))
  return s.nextJob

/-- Cancels jobs in the order of their numbers. -/
def cancelJobs (ids : List JobId) : Turn Unit :=
  modify fun s => { s with outbox := s.outbox ++ (ids.mergeSort (· ≤ ·)).map .cancelled }

def exchange (payload : String) (timeout : Int) : Turn Exchange := do
  let c := (← get).config
  return { host := c.host, port := c.port, payload, localPort := c.localPort, timeout }

end Turn
end BatteryLink
