import BatteryLink.Json.Reader
/-!
Replies of the device: JSON objects that carry a result, or an error instead.
-/
namespace BatteryLink.Reply

/-- Why a reply has no result to offer. -/
inductive Problem where
  | notJson (message : String)
  | notObject (kind : String)
  | deviceError (shown : String)
  | noResult
  deriving DecidableEq, Repr

def Problem.message : Problem → String
  | notJson m => "Invalid JSON reply: " ++ m
  | notObject k => "Reply must be a JSON object (got " ++ k ++ ")"
  | deviceError s => "Device returned an error: " ++ s
  | noResult => "Reply has no result object"

/-- A reply without a result, with its octets. -/
structure Undecodable where
  problem : Problem
  payload : List UInt8
  deriving DecidableEq, Repr

abbrev Entries := List (Value × Value)

def result (payload : List UInt8) (members : Entries) : Except (Stopped Undecodable) Entries :=
  match Value.get "error" members with
  | .none =>
    match Value.get "result" members with
    | .dict r => .ok r
    | _ => .error (.refused ⟨.noResult, payload⟩)
  | e => do .error (.refused ⟨.deviceError (← orFault e.display), payload⟩)

def decode (payload : List UInt8) : Except (Stopped Undecodable) Entries :=
  match Json.read payload with
  | .error (.fault f) => .error (.fault f)
  | .error e => .error (.refused ⟨.notJson e.message, payload⟩)
  | .ok (.dict members) => result payload members
  | .ok v => .error (.refused ⟨.notObject v.kind, payload⟩)

/-- Whether the result of a mode change says that the device took it. -/
def saysAccepted (r : Entries) : Bool :=
  match Value.get "set_result" r with
  | .bool b => b
  | .int i => i == 1
  | _ => false

def accepted (payload : List UInt8) : Except (Stopped Undecodable) Bool := do
  return saysAccepted (← decode payload)

end BatteryLink.Reply
