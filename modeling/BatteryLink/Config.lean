import BatteryLink.Setting
/-!
Configurations: where a device is, how often it is asked for its state, and how many failures in a
row it is allowed.
-/
namespace BatteryLink

structure Config where
  host : String
  port : Int := 30000
  /-- The port that requests are sent from, 0 for any. -/
  localPort : Int := 0
  /-- Seconds between polls. -/
  refreshInterval : Int := 60
  failureThreshold : Int := 3
  deriving DecidableEq, Repr

namespace Config

open Setting (Converted complain)

/-- A whole number, from numbers, truth values, texts and octets; fractions are dropped. -/
def toInt (v : Value) : Converted Int :=
  match v with
  | .bool b => .ok (if b then 1 else 0)
  | .int i => .ok i
  | .float f =>
    match f.truncate with
    | .ok i => .ok i
    | .error .infinite => .error (.fault .infiniteWhole)
    | .error .nan => complain .expectedInt
  | .bytes b => ofChars (Reading.charsOfBytes b)
  | v =>
    match v.asText? with
    | some s => ofChars s.toList
    | none => complain .expectedInt
where
  ofChars (s : List Char) : Converted Int :=
    match Reading.int s with
    | .ok i => .ok i
    | .error _ => complain .expectedInt

def intBetween (low high : Int) (v : Value) : Converted Int := do
  let i ← toInt v
  if i < low then complain (.atLeast low)
  else if high < i then complain (.atMost high)
  else .ok i

def intFrom (low : Int) (v : Value) : Converted Int := do return max low (← toInt v)

/-- A text that is not blank, without blanks at its ends. -/
def toHost (v : Value) : Converted String :=
  match v.asText? with
  | none => complain .expectedText
  | some s =>
    let host := Text.trim s
    if host.isEmpty then complain (.tooShort 1) else .ok host

def setField (c : Config) (name : String) (v : Value) : Converted Config :=
  match name with
  | "host" => do return { c with host := ← toHost v }
  | "port" => do return { c with port := ← intBetween 1 65535 v }
  | "local_port" => do return { c with localPort := ← intBetween 0 65535 v }
  | "refresh_interval" => do return { c with refreshInterval := ← intFrom 1 v }
  | "failure_threshold" => do return { c with failureThreshold := ← intBetween 1 10 v }
  | _ => complain .unknownKey

/-- A complaint about the field under a key. -/
structure Issue where
  complaint : Complaint
  key : Value

/-- The text of a complaint. Its key is written out only here. -/
def Issue.message (i : Issue) : Except Fault String := do
  let about := match i.complaint with
    | .unknownKey | .missingKey => ""
    | _ => " for dictionary value"
  return i.complaint.message ++ about ++ " @ data[" ++ (← i.key.shown) ++ "]"

/-- Takes the entries one by one. All complaints are kept; a fault ends it. -/
def setFields (c : Config) : List (Value × Value) → Except Fault (Config × List Issue)
  | [] => .ok (c, [])
  | (k, v) :: r =>
    match setField c (k.asText?.getD "") v with
    | .ok c => setFields c r
    | .error (.fault f) => .error f
    | .error (.refused complaint) => do
      let (c, issues) ← setFields c r
      .ok (c, ⟨complaint, k⟩ :: issues)

/-- The configuration in a dictionary. A host is required, and unknown keys are not allowed. -/
def ofEntries (entries : List (Value × Value)) : Except (Stopped (List Issue)) Config := do
  let (c, issues) ← orFault (setFields { host := "" } entries)
  let missing : List Issue :=
    if (Value.get? "host" entries).isNone then [⟨.missingKey, .text "host"⟩] else []
  match issues ++ missing with
  | [] => .ok c
  | issues => .error (.refused issues)

end Config
end BatteryLink
