import BatteryLink.Check
import BatteryLink.Request
/-!
Values for control channels. They come as texts, numbers or quantities, and each channel turns them
into a value of its own type or complains.
-/
namespace BatteryLink

inductive Complaint where
  | expectedNumber
  | expectedInt
  /-- Something else than a text where only texts are taken. -/
  | expectedText
  /-- A value that cannot be written as a text. -/
  | noText
  | expectedBoolean
  | atLeast (bound : Int)
  | atMost (bound : Int)
  | tooShort (bound : Nat)
  | notAmong
  | rejected (r : Rejection)
  | unknownKey
  | missingKey
  deriving DecidableEq, Repr

def Complaint.message : Complaint → String
  | expectedNumber => "expected float"
  | expectedInt => "expected int"
  | expectedText | noText => "expected str"
  | expectedBoolean => "expected boolean"
  | atLeast b => "value must be at least " ++ toString b
  | atMost b => "value must be at most " ++ toString b
  | tooShort b => "length of value must be at least " ++ toString b
  | notAmong => "value must be one of ['AI', 'Auto', 'UPS']"
  | rejected r => r.message
  | unknownKey => "extra keys not allowed"
  | missingKey => "required key not provided"

namespace Setting

abbrev Converted := Except (Stopped Complaint)

def complain {α : Type} (c : Complaint) : Converted α := .error (.refused c)

/-- The value without its unit, or the text without blanks at its ends. -/
def plain : Value → Value
  | .quantity v _ => v
  | v =>
    match v.asText? with
    | some s => .text (Text.trim s)
    | none => v

/-- A number, from numbers, truth values, texts and octets. -/
def toNumber (v : Value) : Converted Binary64 :=
  match v with
  | .bool b => .ok ((Binary64.ofInt? (if b then 1 else 0)).getD .zero)
  | .int i =>
    match Binary64.ofInt? i with
    | some f => .ok f
    | none => .error (.fault .tooLargeForDouble)
  | .float f => .ok f
  | .bytes b => ofChars (Reading.charsOfBytes b)
  | v =>
    match v.asText? with
    | some s => ofChars s.toList
    | none => complain .expectedNumber
where
  ofChars (s : List Char) : Converted Binary64 :=
    match Reading.double? s with
    | some f => .ok f
    | none => complain .expectedNumber

/-- The whole part of a number between two bounds. The bounds are checked before the fraction is
dropped, so that no infinity gets further. -/
def boundedInt (low high : Int) (v : Value) : Converted Int := do
  let f ← toNumber (plain v)
  if !Binary64.intLe low f then complain (.atLeast low)
  else if !f.leInt high then complain (.atMost high)
  else
    match f.truncate with
    | .ok i => .ok i
    | .error _ => complain .expectedInt

def power (v : Value) : Converted Int := boundedInt (-Check.maxPower) Check.maxPower v

def countdown (v : Value) : Converted Int := boundedInt 0 Check.maxCountdown v

/-- Rejections are complaints here. -/
def orComplaint {α : Type} : Except (Stopped Rejection) α → Converted α
  | .ok a => .ok a
  | .error (.refused r) => complain (.rejected r)
  | .error (.fault f) => .error (.fault f)

def time (v : Value) : Converted String := orComplaint (TimeOfDay.normalize (plain v) "time")

def weekdays (v : Value) : Converted Nat := orComplaint (Weekdays.ofValue (plain v))

def yesWords : List String := ["1", "true", "yes", "on", "enable"]

def noWords : List String := ["0", "false", "no", "off", "disable"]

/-- The state of a switch: a word for yes or no, or whether a value that is no text counts as
true. -/
def switch (v : Value) : Converted Bool :=
  match (plain v).asText? with
  | some s =>
    let word := Text.lower s
    if yesWords.contains word then .ok true
    else if noWords.contains word then .ok false
    else complain .expectedBoolean
  | none => .ok (plain v).truthy

def mode (v : Value) : Converted String :=
  match v.display with
  | .error (.tooDeep doing) => .error (.fault (.tooDeep doing))
  | .error _ => complain .noText
  | .ok s =>
    let name := Text.trim s
    if Request.selectableModes.contains name then .ok name else complain .notAmong

end Setting
end BatteryLink
