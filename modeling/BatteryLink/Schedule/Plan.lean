import BatteryLink.Value
/-!
When a job runs: at once, after a while, or again and again. Spans of time are numbers of seconds.
-/
namespace BatteryLink

/-- A span of time in seconds. -/
inductive Span where
  | whole (seconds : Int)
  | seconds (s : Binary64)
  deriving DecidableEq, Repr

namespace Span

def ofMilliseconds (n : Nat) : Span := seconds (.ofRatio false n 1000)

/-- The span as it is added to the time on a clock. Whole numbers of seconds may be too large. -/
def onClock? : Span → Option Binary64
  | whole n => Binary64.ofInt? n
  | seconds s => some s

def milliseconds : Span → Int
  | whole n => n * 1000
  | seconds s => s.thousandfold

end Span

inductive Plan where
  | once
  | after (delay : Span)
  /-- At once, and then again, each time so long after the end of the run before. -/
  | every (rest : Span)
  deriving DecidableEq, Repr

namespace Plan

def kind : Plan → String
  | once => "once"
  | after _ => "after"
  | every _ => "every"

def recurs : Plan → Bool
  | every _ => true
  | _ => false

def span : Plan → Span
  | once => .whole 0
  | after d => d
  | every d => d

def span? : Value → Option Span
  | .int i => some (.whole i)
  | .bool b => some (.whole (if b then 1 else 0))
  | .float f => some (.seconds f)
  | _ => none

def isPositive : Span → Bool
  | .whole n => 0 < n
  | .seconds s => Binary64.zero.lt s

/-- The plan to run a job after a number of seconds, at once unless the number is positive. -/
def afterSeconds (v : Value) : Except Fault Plan :=
  match span? v with
  | some d => .ok (.after (if isPositive d then d else .whole 0))
  | none => .error (.unordered ">" v.kind "float")

/-- Whether a span is none or less. -/
def isIdle : Span → Bool
  | .whole n => n ≤ 0
  | .seconds s => s.leInt 0

/-- The plan to run a job again and again. The number of seconds between two runs must not be zero
or less. -/
def everySeconds (v : Value) : Except Fault Plan :=
  match span? v with
  | some d => if isIdle d then do .error (.badInterval (← v.display)) else .ok (.every d)
  | none => .error (.unordered "<=" v.kind "int")

end Plan
end BatteryLink
