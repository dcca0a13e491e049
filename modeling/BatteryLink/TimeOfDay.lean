import BatteryLink.Rejection
import BatteryLink.Text.Blank
import BatteryLink.Text.Digit
import BatteryLink.Value
/-!
Times of day, written with an hour of one or two digits, a colon and two digits of minutes. Where
the first of two digits decides nothing about the second, the second may come from any script.
-/
namespace BatteryLink.TimeOfDay

open Text (decimalValue?)

def hour? : List Char → Option Nat
  | [a] => decimalValue? a
  | [a, b] =>
    if a = '0' then decimalValue? b
    else if a = '1' then (decimalValue? b).map (10 + ·)
    else if a = '2' ∧ '0' ≤ b ∧ b ≤ '3' then (decimalValue? b).map (20 + ·)
    else none
  | _ => none

def minute? : List Char → Option Nat
  | [a, b] => if '0' ≤ a ∧ a ≤ '5' then (decimalValue? b).map (10 * (a.toNat - 48) + ·) else none
  | _ => none

/-- The hour and the minute of a time, read from the two parts around its colon. -/
def parts? (s : List Char) : Option (Nat × Nat) :=
  match Text.splitOn ':' s with
  | [h, m] => do return (← hour? h, ← minute? m)
  | _ => none

/-- Whether a text is a time; a line feed may follow it. -/
def accepts (s : List Char) : Bool :=
  (parts? s).isSome || (s.getLast? == some '\n' && (parts? s.dropLast).isSome)

/-- Rejects what is not a text with a time in it. -/
def check (v : Value) (field : String) : Except (Stopped Rejection) Unit :=
  match v.asText? with
  | none => .error (.refused (.notText field))
  | some s =>
    if accepts s.toList then .ok () else .error (.refused (.notTime field s))

def twoDigits (n : Nat) : List Char := [Char.ofNat (48 + n / 10), Char.ofNat (48 + n % 10)]

/-- The time with two digits for the hour; the minutes stay as they are written. -/
def padded? (s : List Char) : Option (List Char) :=
  match Text.splitOn ':' s with
  | [h, m] => do
    let hour ← hour? h
    let _ ← minute? m
    return twoDigits hour ++ ':' :: m
  | _ => none

/-- The padded time in a value; blanks around it do not count. -/
def normalize (v : Value) (field : String) : Except (Stopped Rejection) String :=
  match v.asText? with
  | none => .error (.refused (.notText field))
  | some s =>
    match padded? (Text.trimChars s.toList) with
    | some t => .ok (String.ofList t)
    | none => .error (.refused (.notTime field (Text.trim s)))

end BatteryLink.TimeOfDay
