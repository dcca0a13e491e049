import BatteryLink.Method
import BatteryLink.Fault
/-!
Rejections: what a check says about a request, or about a value for one of its fields, that must
not reach the device.
-/
namespace BatteryLink

/-- Why something is rejected. Fields and types are given by name, values by their text. -/
inductive Rejection where
  | notText (field : String)
  | notTime (field got : String)
  | notInt (field kind : String)
  /-- A whole number outside its bounds; `unit` follows the bounds in the text. -/
  | outOfBounds (field : String) (low high : Int) (unit got : String)
  | missingFields (part : String) (names : List String)
  | badEnable (got : String)
  | missingSection (name mode : String)
  /-- Something else than a dictionary. -/
  | notDictionary (name kind : String)
  | badMode (got : String)
  | methodNotText (kind : String)
  | unknownMethod (name : String)
  | missingParameters (method : String) (names : List String)
  | unknownParameters (method : String) (names : List String)
  | missingMember (name : String)
  | badCommandId (got : String)
  | weekdaysNotText (kind : String)
  | unknownWeekday (word : String)
  | unknownWeekdayRange (word : String)
  | reversedWeekdayRange (word : String)
  deriving DecidableEq, Repr

namespace Rejection

def message : Rejection → String
  | notText field => field ++ " must be a string"
  | notTime field got => field ++ " must be in HH:MM format (got '" ++ got ++ "')"
  | notInt field kind => field ++ " must be an integer (got " ++ kind ++ ")"
  | outOfBounds field low high unit got =>
    field ++ " must be between " ++ toString low ++ " and " ++ toString high ++ unit
      ++ " (got " ++ got ++ ")"
  | missingFields part names =>
    part ++ " missing required fields: " ++ ", ".intercalate names
  | badEnable got => "enable must be 0 or 1 (got " ++ got ++ ")"
  | missingSection name mode => name ++ " is required when mode is '" ++ mode ++ "'"
  | notDictionary name kind => name ++ " must be a dictionary (got " ++ kind ++ ")"
  | badMode got => "mode must be one of ['AI', 'Auto', 'Manual', 'Passive'] (got '" ++ got ++ "')"
  | methodNotText kind => "method must be a string (got " ++ kind ++ ")"
  | unknownMethod name => "Unknown method '" ++ name ++ "'. Valid methods: "
      ++ ", ".intercalate Method.sortedNames
  | missingParameters method names =>
    "Missing required parameters for " ++ method ++ ": " ++ ", ".intercalate names
  | unknownParameters method names =>
    "Unknown parameters for " ++ method ++ ": " ++ ", ".intercalate names
  | missingMember name => "command missing required field '" ++ name ++ "'"
  | badCommandId got => "command id must be a non-negative integer (got " ++ got ++ ")"
  | weekdaysNotText kind => "weekdays must be a string (got " ++ kind ++ ")"
  | unknownWeekday word => "Unknown weekday '" ++ word ++ "'"
  | unknownWeekdayRange word => "Unknown weekday range '" ++ word ++ "'"
  | reversedWeekdayRange word => "Weekday range must run Monday to Sunday (got '" ++ word ++ "')"

def field : Rejection → String
  | notText f | notTime f _ | notInt f _ | outOfBounds f _ _ _ _ | missingFields f _
  | missingSection f _ | notDictionary f _ | missingMember f => f
  | badEnable _ => "enable"
  | badMode _ => "mode"
  | methodNotText _ | unknownMethod _ => "method"
  | missingParameters _ _ | unknownParameters _ _ => "params"
  | badCommandId _ => "id"
  | weekdaysNotText _ | unknownWeekday _ | unknownWeekdayRange _ | reversedWeekdayRange _ =>
    "weekdays"

end Rejection
end BatteryLink
