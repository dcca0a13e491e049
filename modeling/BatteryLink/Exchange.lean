import BatteryLink.Fault
import BatteryLink.Number.Binary64
/-!
Exchanges: one datagram to the device and at most one back. Every exchange resolves the host, opens
a socket of its own and closes it at the end, whatever happens in between.
-/
namespace BatteryLink

/-- Why an exchange could not be carried out. A device that does not answer is no reason. -/
inductive TransportError where
  | unresolved (host reason : String)
  | noAddress (host : String)
  | noSocket (reason : String)
  | notSent (host : String) (port : Int) (reason : String)
  | notReceived (host : String) (port : Int) (reason : String)
  deriving DecidableEq, Repr

def endpointText (host : String) (port : Int) : String := host ++ ":" ++ toString port

def TransportError.message : TransportError → String
  | unresolved host reason => "Cannot resolve " ++ host ++ ": " ++ reason
  | noAddress host => "Cannot resolve " ++ host ++ ": no addresses"
  | noSocket reason => "Cannot create UDP socket: " ++ reason
  | notSent host port reason => "Cannot send to " ++ endpointText host port ++ ": " ++ reason
  | notReceived host port reason =>
    "Error receiving from " ++ endpointText host port ++ ": " ++ reason

/-- How an exchange ends without telling whether the device answers. -/
abbrev Trouble := Stopped TransportError

abbrev Octets := List UInt8

/-- The octets of a reply, or none if there was no reply in time. -/
abbrev Answered := Except Trouble (Option Octets)

/-- What the system says to one step of an exchange. -/
inductive Permit where
  | granted
  /-- The step fails in one of the ways that are foreseen. -/
  | refused (reason : String)
  /-- The step fails in some other way. -/
  | broken (f : Fault)
  deriving DecidableEq, Repr

inductive Arrival where
  | reply (octets : Octets)
  /-- The system itself reports that the time is over, which it may do at any time. -/
  | timedOut
  | refused (reason : String)
  | broken (f : Fault)
  deriving DecidableEq, Repr

structure Surroundings where
  /-- The addresses of the host, or why there are none. -/
  addresses : Except Permit (List String)
  socket : Permit := .granted
  bind : Permit := .granted
  send : Permit := .granted
  /-- What arrives, and how many milliseconds after the request was sent. -/
  arrival : Option (Nat × Arrival)

structure Exchange where
  host : String
  port : Int
  payload : String
  localPort : Int
  /-- How long to wait for a reply, in milliseconds; less than one counts as one. -/
  timeout : Int
  deriving DecidableEq, Repr

inductive NetworkAct where
  | resolve (host : String) (port : Int)
  | socket
  | bind (address : String) (port : Int)
  | send (address : String) (port localPort : Int) (payload : String)
  | receive (size : Nat)
  | close
  deriving DecidableEq, Repr

namespace Exchange

/-- Longer replies are cut off. -/
def bufferSize : Nat := 4096

def anyAddress : String := "0.0.0.0"

/-- The trouble that a refusal or a breakage means. -/
def trouble (e : String → TransportError) : Permit → Option Trouble
  | .granted => none
  | .refused reason => some (.refused (e reason))
  | .broken f => some (.fault f)

/-- How long the exchange waits at most, in milliseconds. -/
def patience (x : Exchange) : Nat := (max 1 x.timeout).toNat

/-- Whether the patience of an exchange is too long to be told in seconds. -/
def isEndless (x : Exchange) : Bool :=
  match Binary64.ofRatio false x.patience 1000 with
  | .finite .. => false
  | _ => true

/-- What is done once the address is known, up to the moment when the request has been sent. A socket
that was opened in vain is closed. -/
def dispatchTo (x : Exchange) (address : String) (s : Surroundings) :
    List NetworkAct × Except Trouble Unit :=
  match trouble .noSocket s.socket with
  | some t => ([], .error t)
  | none =>
    let opened := [NetworkAct.socket, .bind anyAddress x.localPort]
    match trouble (.notSent x.host x.port) s.bind with
    | some t => (opened ++ [.close], .error t)
    | none =>
      match trouble (.notSent x.host x.port) s.send with
      | some t => (opened ++ [.close], .error t)
      | none => (opened ++ [.send address x.port x.localPort x.payload], .ok ())

/-- Everything up to the moment when the request has been sent, or the reason why it cannot be. -/
def dispatch (x : Exchange) (s : Surroundings) : List NetworkAct × Except Trouble Unit :=
  let resolve := NetworkAct.resolve x.host x.port
  match s.addresses with
  | .error p =>
    ([resolve], .error ((trouble (.unresolved x.host) p).getD (.refused (.noAddress x.host))))
  | .ok [] => ([resolve], .error (.refused (.noAddress x.host)))
  | .ok (address :: _) =>
    if x.isEndless then ([resolve], .error (.fault .tooLargeQuotient))
    else
      let (acts, sent) := x.dispatchTo address s
      (resolve :: acts, sent)

/-- What the exchange makes of what arrives in time. -/
def reception (x : Exchange) : Arrival → Answered
  | .reply octets => .ok (some (octets.take bufferSize))
  | .timedOut => .ok none
  | .refused reason => .error (.refused (.notReceived x.host x.port reason))
  | .broken f => .error (.fault f)

/-- What arrives before patience is at an end, and after how many milliseconds. -/
def inTime? (x : Exchange) (s : Surroundings) : Option (Nat × Answered) :=
  s.arrival.bind fun (delay, a) => if delay < x.patience then some (delay, x.reception a) else none

/-- When the wait for a reply ends, in milliseconds, and with what. -/
def await (x : Exchange) (s : Surroundings) : Nat × Answered :=
  (x.inTime? s).getD (x.patience, .ok none)

/-- An exchange from start to end: its acts with their times, when it ended, and how. -/
structure Trace where
  acts : List (Nat × NetworkAct)
  duration : Nat
  answered : Answered

def run (x : Exchange) (s : Surroundings) : Trace :=
  match x.dispatch s with
  | (acts, .error t) => ⟨acts.map (0, ·), 0, .error t⟩
  | (acts, .ok ()) =>
    let (time, answered) := x.await s
    ⟨acts.map (0, ·) ++ [(0, .receive bufferSize), (time, .close)], time, answered⟩

end Exchange
end BatteryLink
