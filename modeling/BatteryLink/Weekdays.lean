import BatteryLink.Rejection
import BatteryLink.Text.Blank
import BatteryLink.Text.LowerCase
import BatteryLink.Value
/-!
Sets of weekdays as bit masks, and the descriptions they are read from: names of days, ranges of
days and two words for groups of days, separated by commas.
-/
namespace BatteryLink.Weekdays

/-- The days from Monday on, by the first three letters of their names. -/
def codes : List String := ["mon", "tue", "wed", "thu", "fri", "sat", "sun"]

def fullNames : List String :=
  ["monday", "tuesday", "wednesday", "thursday", "friday", "saturday", "sunday"]

/-- The place of a day in the week, Monday being 0. -/
def dayIndex? (code : List Char) : Option Nat := codes.findIdx? fun d => d.toList == code

def bit (day : Nat) : Nat := 2 ^ day

def everyDay : Nat := 127

def weekend : Nat := 96

/-- The bits of the days from `first` to `last`. -/
def span (first last : Nat) : Nat :=
  ((List.range 7).filter fun d => first ≤ d && d ≤ last).foldl (fun m d => m ||| bit d) 0

/-- The days of a range; only the first three letters of either end are looked at. -/
def range (word : List Char) : Except Rejection Nat :=
  let first := (Text.trimChars (word.takeWhile (· != '-'))).take 3
  let last := (Text.trimChars ((word.dropWhile (· != '-')).drop 1)).take 3
  match dayIndex? first, dayIndex? last with
  | some a, some b =>
    if b < a then .error (.reversedWeekdayRange (String.ofList word)) else .ok (span a b)
  | _, _ => .error (.unknownWeekdayRange (String.ofList word))

def part (raw : List Char) : Except Rejection Nat :=
  let shown := Text.trimChars raw
  let word := Text.lowerChars shown
  if word.isEmpty then .ok 0
  else if word = "daily".toList then .ok everyDay
  else if word = "weekend".toList then .ok weekend
  else if word.contains '-' then range word
  else
    match dayIndex? (word.take 3) with
    | some d =>
      if word.length = 3 ∨ fullNames.contains (String.ofList word) then .ok (bit d)
      else .error (.unknownWeekday (String.ofList shown))
    | none => .error (.unknownWeekday (String.ofList shown))

/-- The union of the parts; the first bad part is reported. -/
def union (mask : Nat) : List (List Char) → Except Rejection Nat
  | [] => .ok mask
  | p :: ps =>
    match part p with
    | .ok days => union (mask ||| days) ps
    | .error e => .error e

def parse (s : String) : Except Rejection Nat := union 0 (Text.splitOn ',' s.toList)

def ofValue (v : Value) : Except (Stopped Rejection) Nat :=
  match v.asText? with
  | none => .error (.refused (.weekdaysNotText v.kind))
  | some s =>
    match parse s with
    | .ok mask => .ok mask
    | .error e => .error (.refused e)

end BatteryLink.Weekdays
