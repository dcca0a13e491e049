import BatteryLink.Check
import BatteryLink.Json.Writer
/-!
Requests to the device. A request is a JSON object with a number, a method and parameters; it is
checked before it is written.
-/
namespace BatteryLink.Request

open Check (Checked)

/-- Every exchange has a socket of its own, so a reply never needs a number to be told apart. -/
def number : Int := 0

def text (s : String) : Value := .text s

/-- Members in the order in which they are written. -/
def object (members : List (String × Value)) : Value :=
  .dict (members.map fun (n, v) => (.text n, v))

/-- The request for a method. Parameters that count as false are none. -/
def envelope (method params : Value) : Value :=
  object [("id", .int number), ("method", method),
    ("params", if params.truthy then params else .dict [])]

/-- The written request; with `checked`, only if it is a good one. -/
def build (method params : Value) (checked : Bool) : Checked String := do
  let request := envelope method params
  if checked then Check.command request else pure ()
  orFault (Json.write request)

def discover : Checked String := build (text Method.getDevice.name) .none true

def textOf (c : Checked String) : String :=
  match c with
  | .ok s => s
  | .error _ => ""

def discoverText : String := textOf discover

def statusQuery (method deviceId : Value) : Checked String :=
  build method (object [("id", deviceId)]) true

/-- The query that a poll sends for a part of the state. -/
def queryText (m : Method) : String := textOf (statusQuery (text m.name) (.int 0))

def manualMode (slot start stop weekSet power : Value) : Value :=
  object [("mode", text "Manual"),
    ("manual_cfg", object [("time_num", slot), ("start_time", start), ("end_time", stop),
      ("week_set", weekSet), ("power", power), ("enable", .int 1)])]

def passiveMode (power countdown : Value) : Value :=
  object [("mode", text "Passive"),
    ("passive_cfg", object [("power", power), ("cd_time", countdown)])]

/-- The slot that stands for the mode `UPS`: all week, all day, at a fixed charging power. -/
def upsMode : Value :=
  manualMode (.int 1) (text "00:00") (text "23:59") (.int Weekdays.everyDay) (.int (-2500))

def selectedMode (mode : Value) : Except Fault Value :=
  match mode.asText? with
  | some "Auto" => .ok (object [("mode", text "Auto"), ("auto_cfg", object [("enable", .int 1)])])
  | some "AI" => .ok (object [("mode", text "AI"), ("ai_cfg", object [("enable", .int 1)])])
  | some "UPS" => .ok upsMode
  | _ => do .error (.unknownMode (← mode.display))

/-- Modes that can be selected by name. -/
def selectableModes : List String := ["Auto", "AI", "UPS"]

def setMode (change deviceId : Value) : Checked String :=
  build (text Method.setMode.name) (object [("id", deviceId), ("config", change)]) true

def select (mode : Value) : Checked String := do
  setMode (← orFault (selectedMode mode)) (.int 0)

def passive (power countdown : Value) : Checked String := setMode (passiveMode power countdown) (.int 0)

def manualSlot (slot start stop weekSet power : Value) : Checked String :=
  setMode (manualMode slot start stop weekSet power) (.int 0)

end BatteryLink.Request
