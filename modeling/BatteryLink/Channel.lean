import BatteryLink.Number.Reading
import BatteryLink.Fault
import BatteryLink.Text.Digit
/-!
Channels that a host application can write to. Each has one identifier; the fields of the four time
slots are channels of their own.
-/
namespace BatteryLink

/-- A channel of the device as a whole. -/
inductive Control where
  | modeSelect
  | passivePower
  | passiveCountdown
  | passiveActivate
  | manualActivate
  deriving DecidableEq, Repr

inductive SlotField where
  | enabled
  | start
  | stop
  | weekdays
  | power
  deriving DecidableEq, Repr

def Control.all : List Control :=
  [.modeSelect, .passivePower, .passiveCountdown, .passiveActivate, .manualActivate]

def Control.id : Control → String
  | .modeSelect => "modeSelect"
  | .passivePower => "passivePower"
  | .passiveCountdown => "passiveCountdown"
  | .passiveActivate => "passiveActivate"
  | .manualActivate => "manualActivate"

def Control.ofId? (s : String) : Option Control := Control.all.find? fun c => c.id == s

def SlotField.all : List SlotField := [.enabled, .start, .stop, .weekdays, .power]

def SlotField.id : SlotField → String
  | .enabled => "enabled"
  | .start => "start"
  | .stop => "end"
  | .weekdays => "weekdays"
  | .power => "power"

def SlotField.ofId? (s : String) : Option SlotField := SlotField.all.find? fun f => f.id == s

/-- A channel that can be written to. -/
inductive Channel where
  | control (c : Control)
  | slot (index : Fin 4) (field : SlotField)
  deriving DecidableEq, Repr

namespace Channel

def groupMark : String := "timePeriod"

/-- The identifier made of a slot and a field. -/
def slotId (index field : String) : String := groupMark ++ index ++ "#" ++ field

def id : Channel → String
  | control c => c.id
  | slot i f => slotId (toString i.val) f.id

/-- The number of a slot, written in digits of any script. Digits without a place value pass for
digits until they are read. -/
def slotNumber? (digits : List Char) : Except Fault (Option (Fin 4)) :=
  if digits.isEmpty || !digits.all Text.isDigit then .ok none
  else
    match Reading.int digits with
    | .ok i => .ok (if h : i.toNat < 4 then some ⟨i.toNat, h⟩ else none)
    | .error .malformed => .error (.notInt (String.ofList digits))
    | .error (.tooLong n) => .error (.longNumeral n)

/-- The slot channel with an identifier of the form group, number, mark and field. -/
def parseSlot (s : List Char) : Except Fault (Option Channel) :=
  let group := s.takeWhile (· != '#')
  if group.length = s.length ∨ !groupMark.toList.isPrefixOf group then .ok none
  else do
    match ← slotNumber? (group.drop groupMark.length) with
    | none => return none
    | some i =>
      return (SlotField.ofId? (String.ofList (s.drop (group.length + 1)))).map (slot i)

def parse (s : String) : Except Fault (Option Channel) :=
  match Control.ofId? s with
  | some c => .ok (some (control c))
  | none => parseSlot s.toList

end Channel
end BatteryLink
