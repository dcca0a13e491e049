import BatteryLink.Method
import BatteryLink.Reply
import BatteryLink.Text.Blank
import BatteryLink.Text.LowerCase
/-!
Updates of channels from the results of status queries. Fields that are absent or null say nothing,
which differs from a zero: they never replace what was published before.
-/
namespace BatteryLink.Status

/-- How a field becomes the value of a channel. -/
inductive Shape where
  | quantity (unit : String)
  | number
  | switch
  /-- On only if the device reports exactly 1. -/
  | flag
  | text
  deriving DecidableEq, Repr

structure Field where
  key : String
  channel : String
  shape : Shape
  deriving DecidableEq, Repr

/-- The fields of the reply to a query, in the order of their updates. -/
def fields : Method → List Field
  | .batteryStatus =>
    [⟨"soc", "batterySoc", .quantity "%"⟩,
     ⟨"bat_temp", "batteryTemperature", .quantity "°C"⟩,
     ⟨"bat_capacity", "batteryCapacity", .quantity "Wh"⟩,
     ⟨"rated_capacity", "batteryRatedCapacity", .quantity "Wh"⟩,
     ⟨"charg_flag", "chargingFlag", .switch⟩,
     ⟨"dischrg_flag", "dischargingFlag", .switch⟩]
  | .solarStatus =>
    [⟨"pv_power", "pvPower", .quantity "W"⟩,
     ⟨"pv_voltage", "pvVoltage", .quantity "V"⟩,
     ⟨"pv_current", "pvCurrent", .quantity "A"⟩]
  | .energyStatus =>
    [⟨"ongrid_power", "ongridPower", .quantity "W"⟩,
     ⟨"offgrid_power", "offgridPower", .quantity "W"⟩,
     ⟨"bat_power", "batteryPower", .quantity "W"⟩,
     ⟨"total_pv_energy", "totalPvEnergy", .quantity "Wh"⟩,
     ⟨"total_grid_output_energy", "totalGridOutputEnergy", .quantity "Wh"⟩,
     ⟨"total_grid_input_energy", "totalGridInputEnergy", .quantity "Wh"⟩,
     ⟨"total_load_energy", "totalLoadEnergy", .quantity "Wh"⟩]
  | .energyMode => [⟨"mode", "operatingMode", .text⟩]
  | .meterStatus =>
    [⟨"ct_state", "ctState", .flag⟩,
     ⟨"a_power", "phaseAPower", .quantity "W"⟩,
     ⟨"b_power", "phaseBPower", .quantity "W"⟩,
     ⟨"c_power", "phaseCPower", .quantity "W"⟩,
     ⟨"total_power", "totalMeterPower", .quantity "W"⟩]
  | .wifiStatus =>
    [⟨"rssi", "wifiRssi", .number⟩,
     ⟨"ssid", "wifiSsid", .text⟩,
     ⟨"sta_ip", "ipAddress", .text⟩]
  | .getDevice | .setMode => []

def toDouble (v : Value) : Except Fault (Option Binary64) :=
  match v with
  | .int i =>
    match Binary64.ofInt? i with
    | some f => .ok (some f)
    | none => .error .tooLargeForDouble
  | .float f => .ok (some f)
  | v => .ok (v.asText?.bind fun s => Reading.double? (Text.trimChars s.toList))

/-- The words for the two states of a switch. -/
def switchWord? (s : String) : Option Bool :=
  let word := Text.lower (Text.trim s)
  if word = "true" ∨ word = "on" then some true
  else if word = "false" ∨ word = "off" then some false
  else none

def toSwitch (v : Value) : Except Fault (Option Bool) :=
  match v with
  | .bool b => .ok (some b)
  | v =>
    match v.asText?.bind switchWord? with
    | some b => .ok (some b)
    | none => do return (← toDouble v).map fun f => !f.eqInt 0

/-- The value that a channel gets from a field, if the field has one of the right shape. -/
def convert (shape : Shape) (v : Value) : Except Fault (Option Value) :=
  match shape with
  | .quantity unit => do return (← toDouble v).map fun f => .quantity (.float f) unit
  | .number => do return (← toDouble v).map .float
  | .switch => do return (← toSwitch v).map .switch
  | .flag => do return (← toDouble v).map fun f => .switch (f.eqInt 1)
  | .text =>
    match v with
    | .text _ | .broken _ | .switch _ => .ok (some v)
    | .int _ | .float _ => do return some (.text (← v.display))
    | _ => .ok none

def update (f : Field) (result : Reply.Entries) : Except Fault (Option (String × Value)) :=
  match Value.get f.key result with
  | .none => .ok none
  | v => do return (← convert f.shape v).map fun w => (f.channel, w)

def updatesOf (result : Reply.Entries) : List Field → Except Fault (List (String × Value))
  | [] => .ok []
  | f :: fs => do
    let u ← update f result
    let us ← updatesOf result fs
    return u.toList ++ us

/-- The updates that the result of a query gives, in the order of the fields. -/
def updates (m : Method) (result : Reply.Entries) : Except Fault (List (String × Value)) :=
  updatesOf result (fields m)

/-- The updates that the result of the query of this name gives. Only a query says anything. -/
def updatesFor (method : Value) (result : Reply.Entries) :
    Except Fault (List (String × Value)) := do
  method.hashable
  match method.asText?.bind Method.ofName? with
  | some m => updates m result
  | none => return []

end BatteryLink.Status
