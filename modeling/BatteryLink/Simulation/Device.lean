import BatteryLink.Exchange
import BatteryLink.Json.Reader
/-!
A simulated device on a simulated network, for trying out sessions without a battery.
-/
namespace BatteryLink.Simulation

inductive Effect where
  | silence
  | reply (octets : Octets)
  | refuseSending (reason : String)
  | refuseReceiving (reason : String)
  /-- Sending fails in a way nobody expects. -/
  | breakSending (f : Fault)
  deriving DecidableEq, Repr

structure Reaction where
  effect : Effect
  /-- Milliseconds until the reply or the failure to receive one. -/
  delay : Nat := 0
  /-- Whether the session is disposed of while it waits for the reply. -/
  disposes : Bool := false
  deriving DecidableEq, Repr

/-- Reactions by the method of the request. Each is used once, but for the last, which stays. -/
abbrev Device := List (String × List Reaction)

namespace Device

/-- The name under which reactions to every request stand. -/
def anyMethod : String := "*"

def afterUse : List Reaction → List Reaction
  | _ :: r :: rs => r :: rs
  | rs => rs

/-- The name under which the reaction to a request is to be found. -/
def keyFor (d : Device) (method : Option String) : Option String :=
  if d.any (·.1 == anyMethod) then some anyMethod else method

/-- The reaction to a request, and the device after it. -/
def react (d : Device) (method : Option String) : Reaction × Device :=
  let key := d.keyFor method
  let reactions := ((d.find? (some ·.1 == key)).map (·.2)).getD []
  (reactions.headD { effect := .silence },
   d.map fun (k, rs) => if some k = key then (k, afterUse rs) else (k, rs))

def update (d new : Device) : Device :=
  d.filter (fun e => !new.any (·.1 == e.1)) ++ new

/-- The method that a request names, if it is a request. -/
def methodOf (payload : String) : Option String :=
  match Json.read payload.toUTF8.toList with
  | .ok (.dict members) => (Value.get "method" members).plainText?
  | _ => none

end Device

inductive Breakdown where
  | resolving (reason : String)
  | noAddress
  | socket (reason : String)
  | binding (reason : String)
  | sending (reason : String)
  | receiving (reason : String)
  /-- Sending fails in a way nobody expects. -/
  | crash (f : Fault)
  deriving DecidableEq, Repr

/-- A device and the network that leads to it. -/
structure Site where
  device : Device
  breakdown : Option Breakdown := none
  /-- What every host name stands for, if it does not stand for itself. -/
  addresses : Option (List String) := none

namespace Site

/-- The text with which a resolver that knows no name refuses. -/
def resolverRefusal (reason : String) : String := "[Errno -2] " ++ reason

def addressesOf (s : Site) (host : String) : Except Permit (List String) :=
  match s.breakdown with
  | some (.resolving reason) => .error (.refused (resolverRefusal reason))
  | some .noAddress => .ok []
  | _ => .ok (s.addresses.getD [host])

/-- What becomes of a request that the device gets. -/
def ofReaction (r : Reaction) : Permit × Option (Nat × Arrival) :=
  match r.effect with
  | .silence => (.granted, none)
  | .reply octets => (.granted, some (r.delay, .reply octets))
  | .refuseSending reason => (.refused reason, none)
  | .refuseReceiving reason => (.granted, some (r.delay, .refused reason))
  | .breakSending f => (.broken f, none)

/-- How an exchange will be treated, whether the session is disposed of meanwhile, and the site
after it. The device reacts only to what reaches it. -/
def treat (s : Site) (x : Exchange) : Surroundings × Bool × Site :=
  let addresses := s.addressesOf x.host
  match s.breakdown with
  | some (.socket reason) => ({ addresses, socket := .refused reason, arrival := none }, false, s)
  | some (.binding reason) => ({ addresses, bind := .refused reason, arrival := none }, false, s)
  | some (.sending reason) => ({ addresses, send := .refused reason, arrival := none }, false, s)
  | some (.crash f) => ({ addresses, send := .broken f, arrival := none }, false, s)
  | some (.resolving _) | some .noAddress => ({ addresses, arrival := none }, false, s)
  | some (.receiving reason) =>
    let (reaction, device) := s.device.react (Device.methodOf x.payload)
    let (send, _) := ofReaction reaction
    ({ addresses, send, arrival := some (0, .refused reason) }, reaction.disposes,
     { s with device })
  | none =>
    let (reaction, device) := s.device.react (Device.methodOf x.payload)
    let (send, arrival) := ofReaction reaction
    ({ addresses, send, arrival }, reaction.disposes, { s with device })

end Site

/-- A site at a time, in milliseconds. -/
structure Stage where
  site : Site
  clock : Nat := 0

namespace Stage

/-- An exchange with the device of a stage, with its acts. Nothing else happens meanwhile. -/
def exchange (s : Stage) (x : Exchange) : Exchange.Trace × Stage :=
  let (surroundings, _, site) := s.site.treat x
  let trace := x.run surroundings
  (trace, { site, clock := s.clock + trace.duration })

end Stage
end BatteryLink.Simulation
