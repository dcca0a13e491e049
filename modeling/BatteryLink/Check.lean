import BatteryLink.TimeOfDay
import BatteryLink.Weekdays
/-!
Checks of requests. The device does not take malformed requests well, so every request is checked
as a whole before it is written.
-/
namespace BatteryLink.Check

abbrev Checked := Except (Stopped Rejection)

def reject {α : Type} (r : Rejection) : Checked α := .error (.refused r)

def maxPower : Int := 5000
def maxDeviceId : Int := 255
def slotCount : Nat := 4
def maxWeekSet : Int := 127
/-- A day, in seconds. -/
def maxCountdown : Int := 86400

def bounded (field : String) (low high : Int) (unit : String) (v : Value) : Checked Unit :=
  match v.asInt? with
  | none => reject (.notInt field v.kind)
  | some i =>
    if low ≤ i ∧ i ≤ high then .ok ()
    else do reject (.outOfBounds field low high unit (← orFault (v.display)))

def deviceId (v : Value) (field : String) : Checked Unit := bounded field 0 maxDeviceId "" v

def power (v : Value) (field : String) : Checked Unit := bounded field (-maxPower) maxPower "" v

def weekSet (v : Value) (field : String) : Checked Unit := bounded field 0 maxWeekSet "" v

def countdown (v : Value) (field : String) : Checked Unit :=
  bounded field 0 maxCountdown " seconds" v

abbrev Entries := List (Value × Value)

def missing (names : List String) (entries : Entries) : List String :=
  names.filter fun n => (Value.get? n entries).isNone

def requireFields (part : String) (names : List String) (entries : Entries) : Checked Unit :=
  match missing names entries with
  | [] => .ok ()
  | absent => reject (.missingFields part absent)

def slot (v : Value) : Checked Unit :=
  let good := match v.asInt? with
    | some i => 0 ≤ i && i < slotCount
    | none => false
  if good then .ok ()
  else do reject (.outOfBounds "time_num" 0 (slotCount - 1) "" (← orFault v.display))

/-- The flag that makes a slot active: the number 0 or 1, but no truth value. -/
def enable (v : Value) : Checked Unit :=
  let flag := match v with
    | .bool _ => false
    | v => v.equalsInt 0 || v.equalsInt 1
  if flag then .ok () else do reject (.badEnable (← orFault v.display))

/-- The part of a mode change that describes a slot. It may end before it starts; the device takes
such a slot as one that runs over midnight. -/
def manualPart (c : Entries) : Checked Unit := do
  requireFields "manual_cfg" ["enable", "end_time", "power", "start_time", "time_num", "week_set"] c
  slot (Value.get "time_num" c)
  TimeOfDay.check (Value.get "start_time" c) "start_time"
  TimeOfDay.check (Value.get "end_time" c) "end_time"
  weekSet (Value.get "week_set" c) "week_set"
  power (Value.get "power" c) "power"
  enable (Value.get "enable" c)

def withEntries (part : Entries → Checked Unit) (v : Value) : Checked Unit :=
  match v with
  | .dict c => part c
  | v => .error (.fault (.noMember v.kind "keys"))

/-- The part of a mode change that sets a power for some time. -/
def passivePart (c : Entries) : Checked Unit := do
  requireFields "passive_cfg" ["cd_time", "power"] c
  power (Value.get "power" c) "power"
  countdown (Value.get "cd_time" c) "cd_time"

def sectionOf (c : Entries) (name mode : String) : Checked Entries :=
  match Value.get name c with
  | .none => reject (.missingSection name mode)
  | .dict d => .ok d
  | v => reject (.notDictionary name v.kind)

/-- A change of mode: the mode, and the part that belongs to it. -/
def modeChange (v : Value) : Checked Unit :=
  match v with
  | .dict c => do
    let mode := Value.get "mode" c
    orFault mode.hashable
    match mode.asText? with
    | some "Manual" => manualPart (← sectionOf c "manual_cfg" "Manual")
    | some "Passive" => passivePart (← sectionOf c "passive_cfg" "Passive")
    | some "Auto" => do
      let _ ← sectionOf c "auto_cfg" "Auto"
    | some "AI" => do
      let _ ← sectionOf c "ai_cfg" "AI"
    | _ => reject (.badMode (← orFault mode.display))
  | v => reject (.notDictionary "config" v.kind)

def method (v : Value) : Checked Method :=
  match v.asText? with
  | none => reject (.methodNotText v.kind)
  | some s =>
    match Method.ofName? s with
    | some m => .ok m
    | none => reject (.unknownMethod s)

/-- Keys of the same rank have an order among themselves. -/
def rank? : Value → Option Nat
  | .bool _ | .int _ | .float _ => some 0
  | .text _ | .broken _ | .switch _ => some 1
  | .bytes _ => some 2
  | _ => none

/-- The first two neighbours that have no order. -/
def firstUnordered? : List Value → Option (Value × Value)
  | a :: b :: r =>
    if (rank? a).isSome && rank? a == rank? b then firstUnordered? (b :: r) else some (a, b)
  | _ => none

/-- The names among keys, in alphabetical order, if all the keys are names. -/
def sortedNames (keys : List Value) : Except Fault (List String) :=
  match firstUnordered? keys with
  | some (a, b) => .error (.unordered "<" b.kind a.kind)
  | none =>
    let sorted := keys.mergeSort fun a b => !b.before a
    match sorted.find? fun k => k.asText?.isNone with
    | some k => .error (.notJoinable 0 k.kind)
    | none => .ok (sorted.filterMap Value.asText?)

def strangers (names : List String) (entries : Entries) : List Value :=
  (entries.map (·.1)).filter fun k => !(k.asText?.any names.contains)

def parameters (name params : Value) : Checked Unit := do
  let m ← method name
  match params with
  | .dict p => do
    match missing m.required p with
    | [] => pure ()
    | absent => reject (.missingParameters m.name absent)
    match strangers (m.required ++ m.optional) p with
    | [] => pure ()
    | strange => do reject (.unknownParameters m.name (← orFault (sortedNames strange)))
    match Value.get? "id" p with
    | some v => deviceId v "id"
    | none => pure ()
    if m = .setMode then modeChange (Value.get "config" p) else pure ()
  | v => reject (.notDictionary "params" v.kind)

/-- The number of a request. Truth values count as numbers here. -/
def commandId (v : Value) : Checked Unit :=
  let good := match v with
    | .int i => decide (0 ≤ i)
    | .bool _ => true
    | _ => false
  if good then .ok () else do reject (.badCommandId (← orFault v.display))

def command (v : Value) : Checked Unit :=
  match v with
  | .dict c => do
    if (Value.get? "id" c).isNone then reject (.missingMember "id")
    if (Value.get? "method" c).isNone then reject (.missingMember "method")
    commandId (Value.get "id" c)
    parameters (Value.get "method" c) ((Value.get? "params" c).getD (.dict []))
  | v => reject (.notDictionary "command" v.kind)

end BatteryLink.Check
