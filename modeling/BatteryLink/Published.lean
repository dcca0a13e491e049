import BatteryLink.Moment
import BatteryLink.Value
/-!
What is published on channels, and its text for people.
-/
namespace BatteryLink

inductive Published where
  | value (v : Value)
  | moment (m : Moment)
  deriving Inhabited

namespace Value

def briefNumber (v : Value) : Except Fault String :=
  match v with
  | .int i => ofInt i
  | .bool b => ofInt (if b then 1 else 0)
  | .float f => .ok (Layout.brief.write f)
  | .text _ | .broken _ | .switch _ => .error (.noTextFormat v.kind)
  | v => .error (.noNumberFormat v.kind)
where
  ofInt (i : Int) : Except Fault String :=
    match Binary64.ofInt? i with
    | some f => .ok (Layout.brief.write f)
    | .none => .error .tooLargeForDouble

def brief (v : Value) : Except Fault Text.Symbols :=
  match v with
  | .quantity n unit => do return .ofString ((← briefNumber n) ++ " " ++ unit)
  | .float _ => do return .ofString (← briefNumber v)
  | v => v.symbols

end Value

def Published.brief : Published → Except Fault Text.Symbols
  | .value v => v.brief
  | .moment m => .ok (.ofString (m.write " "))

end BatteryLink
