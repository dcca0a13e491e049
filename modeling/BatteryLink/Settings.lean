import BatteryLink.Channel
import BatteryLink.Value
/-!
Settings that control channels collect until an activation sends them to the device.
-/
namespace BatteryLink

structure Slot where
  enabled : Bool := false
  start : String := "00:00"
  stop : String := "00:00"
  weekSet : Nat := 0
  power : Int := 0
  deriving DecidableEq, Repr

/-- A power, and for how many seconds it is kept. -/
structure PassiveSetting where
  power : Int := 0
  countdown : Int := 300
  deriving DecidableEq, Repr

/-- The device has four slots. -/
structure Settings where
  passive : PassiveSetting := {}
  slots : Vector Slot 4 := Vector.replicate 4 {}
  deriving DecidableEq, Repr

/-- A slot whose fields have not been checked. -/
structure SlotDraft where
  enabled : Value := .bool false
  start : Value := .text "00:00"
  stop : Value := .text "00:00"
  weekSet : Value := .int 0
  power : Value := .int 0

def Slot.draft (s : Slot) : SlotDraft where
  enabled := .bool s.enabled
  start := .text s.start
  stop := .text s.stop
  weekSet := .int s.weekSet
  power := .int s.power

/-- How many of the requests of a command the device took. -/
structure Tally where
  succeeded : Int
  attempted : Int
  deriving DecidableEq, Repr

/-- Whether there was something to do and all of it was done. -/
def Tally.ok (t : Tally) : Bool := 0 < t.attempted && t.succeeded == t.attempted

/-- The same for counts of any kind. What is no number cannot be counted against. -/
def Tally.okOf (succeeded attempted : Value) : Except Fault Bool :=
  match attempted.number? with
  | some n => .ok (Binary64.zero.lt n && succeeded.number?.any n.sameNumber)
  | none => .error (.unordered ">" attempted.kind "int")

end BatteryLink
