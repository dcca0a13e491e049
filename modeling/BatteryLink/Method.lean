/-!
The methods of the device, with the parameters each of them takes.
-/
namespace BatteryLink

inductive Method where
  | getDevice
  | batteryStatus
  | solarStatus
  | energyStatus
  | energyMode
  | meterStatus
  | wifiStatus
  | setMode
  deriving DecidableEq, Repr

namespace Method

def all : List Method :=
  [getDevice, batteryStatus, solarStatus, energyStatus, energyMode, meterStatus, wifiStatus, setMode]

def name : Method → String
  | getDevice => "Marstek.GetDevice"
  | batteryStatus => "Bat.GetStatus"
  | solarStatus => "PV.GetStatus"
  | energyStatus => "ES.GetStatus"
  | energyMode => "ES.GetMode"
  | meterStatus => "EM.GetStatus"
  | wifiStatus => "Wifi.GetStatus"
  | setMode => "ES.SetMode"

def ofName? (s : String) : Option Method := all.find? fun m => m.name == s

/-- The queries of a poll, in the order in which they are sent. -/
def statusQueries : List Method :=
  [batteryStatus, solarStatus, energyStatus, energyMode, meterStatus, wifiStatus]

/-- The names of all methods in alphabetical order. -/
def sortedNames : List String :=
  ["Bat.GetStatus", "EM.GetStatus", "ES.GetMode", "ES.GetStatus", "ES.SetMode",
   "Marstek.GetDevice", "PV.GetStatus", "Wifi.GetStatus"]

/-- Parameters that must be there, in alphabetical order. -/
def required : Method → List String
  | setMode => ["config", "id"]
  | _ => []

def optional : Method → List String
  | getDevice => ["ble_mac"]
  | setMode => []
  | _ => ["id"]

def writes (m : Method) : Bool := m == setMode

end Method
end BatteryLink
