/-!
Moments and their texts. Moments are counted in milliseconds from the start of 2024, in universal
time.
-/
namespace BatteryLink

/-- Milliseconds since the start of 2024. -/
structure Moment where
  milliseconds : Nat
  deriving DecidableEq, Repr

namespace Moment

/-- Days from the start of year 0 of a calendar whose years start in March to the start of 2024. -/
def daysBefore2024 : Nat := 739191

structure Date where
  year : Nat
  month : Nat
  day : Nat
  deriving DecidableEq, Repr

/-- The date of the day with a number. Four centuries have 146097 days, a century has 36524 and
four years have 1461, but for the last day of each; years start in March, so that a leap day is the
last day of its year. -/
def dateOfDay (n : Nat) : Date :=
  let era := n / 146097
  let dayOfEra := n % 146097
  let yearOfEra := (dayOfEra - dayOfEra / 1460 + dayOfEra / 36524 - dayOfEra / 146096) / 365
  let dayOfYear := dayOfEra - (365 * yearOfEra + yearOfEra / 4 - yearOfEra / 100)
  let monthFromMarch := (5 * dayOfYear + 2) / 153
  let month := if monthFromMarch < 10 then monthFromMarch + 3 else monthFromMarch - 9
  { year := yearOfEra + era * 400 + (if month ≤ 2 then 1 else 0)
    month
    day := dayOfYear - (153 * monthFromMarch + 2) / 5 + 1 }

def padded (width n : Nat) : String :=
  let digits := toString n
  String.ofList (List.replicate (width - digits.length) '0') ++ digits

/-- Date and time with a mark between them; a fraction is written in microseconds, if there is
one. -/
def write (mark : String) (m : Moment) : String :=
  let date := dateOfDay (daysBefore2024 + m.milliseconds / 86400000)
  let rest := m.milliseconds % 86400000
  let seconds := rest / 1000
  let fraction := if rest % 1000 = 0 then "" else "." ++ padded 6 (rest % 1000 * 1000)
  padded 4 date.year ++ "-" ++ padded 2 date.month ++ "-" ++ padded 2 date.day ++ mark
    ++ padded 2 (seconds / 3600) ++ ":" ++ padded 2 (seconds / 60 % 60) ++ ":"
    ++ padded 2 (seconds % 60) ++ fraction ++ "+00:00"

def iso (m : Moment) : String := m.write "T"

example : dateOfDay daysBefore2024 = ⟨2024, 1, 1⟩ := by decide
example : dateOfDay (daysBefore2024 + 59) = ⟨2024, 2, 29⟩ := by decide
example : dateOfDay (daysBefore2024 + 366) = ⟨2025, 1, 1⟩ := by decide

end Moment
end BatteryLink
