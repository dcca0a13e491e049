import BatteryLink.Health
import BatteryLink.Published
/-!
What a person at a terminal sees of a session: a line for each status, and the last content of each
channel.
-/
namespace BatteryLink

def statusLine (status : DeviceStatus) (detail : Option String) : String :=
  let suffix := match detail with
    | some d => if d.isEmpty then "" else " (" ++ d ++ ")"
    | none => ""
  "Status: " ++ status.name ++ suffix ++ "\n"

/-- A line as a terminal takes it, which is not the case if surrogates stand alone in it. -/
def typed (line : Text.Symbols) : Except Fault String :=
  match line.chars? with
  | some cs => .ok (String.ofList cs ++ "\n")
  | none =>
    let before := line.takeWhile fun x => x.char?.isSome
    let run := (line.drop before.length).takeWhile fun x => x.char?.isNone
    let unit := (run.head?.map Text.Symbol.code).getD 0
    .error (.unencodable unit before.length (before.length + run.length - 1))

/-- The last content of each channel. -/
abbrev Board := List (String × Published)

namespace Board

/-- The board with the channels in alphabetical order. -/
def put (channel : String) (p : Published) : Board → Board
  | [] => [(channel, p)]
  | (c, q) :: r =>
    if c = channel then (c, p) :: r
    else if channel < c then (channel, p) :: (c, q) :: r
    else (c, q) :: put channel p r

def line (channel : String) (text : Text.Symbols) : Text.Symbols :=
  .ofString ("  " ++ channel ++ String.ofList (List.replicate (24 - channel.length) ' ') ++ " ") ++ text

/-- Types line after line. What stands in the lines is looked at only when they are typed. -/
def print : Board → Except Fault String
  | [] => .ok ""
  | (c, p) :: r => do
    let first ← typed (line c (← p.brief))
    return first ++ (← print r)

end Board
end BatteryLink
