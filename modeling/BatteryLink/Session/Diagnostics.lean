import BatteryLink.Session.Basic
/-!
A snapshot of a session for people who look for a fault.
-/
namespace BatteryLink

structure Diagnostics where
  endpoint : String
  status : DeviceStatus
  failures : Nat
  threshold : Int
  refreshInterval : Int
  lastUpdate : Option Moment
  lastError : Option String
  lastResult : Option Tally
  settings : Settings
  identity : Option Identity
  disposed : Bool
  deriving DecidableEq, Repr

def Session.diagnostics (s : Session) : Diagnostics where
  endpoint := s.endpoint
  status := s.health.status
  failures := s.health.failures
  threshold := s.health.threshold
  refreshInterval := s.config.refreshInterval
  lastUpdate := s.lastUpdate
  lastError := s.lastError
  lastResult := s.lastResult
  settings := s.settings
  identity := s.identity
  disposed := s.disposed

end BatteryLink
