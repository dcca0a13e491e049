/-!
Whether a device can be reached. One failure does not put a device offline: only as many in a row
as a threshold tells do. Any success puts it online.
-/
namespace BatteryLink

inductive DeviceStatus where
  | unknown
  | online
  | offline
  deriving DecidableEq, Repr

def DeviceStatus.name : DeviceStatus → String
  | unknown => "UNKNOWN"
  | online => "ONLINE"
  | offline => "OFFLINE"

/-- The outcomes of checks so far, as far as they matter. -/
structure Health where
  threshold : Int
  status : DeviceStatus
  failures : Nat
  deriving DecidableEq, Repr

/-- A change of status, with the number of failures in a row that it was made at. -/
structure StatusChange where
  previous : DeviceStatus
  current : DeviceStatus
  failures : Nat
  deriving DecidableEq, Repr

namespace Health

def defaultThreshold : Int := 3

/-- Nothing is known; a threshold below 1 is taken for 1. -/
def initial (threshold : Int) : Health := ⟨max 1 threshold, .unknown, 0⟩

def isOnline (h : Health) : Bool := h.status == .online

def record (h : Health) (reachable : Bool) : Health :=
  if reachable then { h with failures := 0, status := .online }
  else
    let failures := h.failures + 1
    { h with failures, status := if h.threshold ≤ failures then .offline else h.status }

def changed (before after : Health) : Option StatusChange :=
  if before.status = after.status then none
  else some ⟨before.status, after.status, after.failures⟩

def history (h : Health) : List Bool → List Health
  | [] => []
  | r :: rs => h.record r :: history (h.record r) rs

end Health
end BatteryLink
