import BatteryLink.Board
import BatteryLink.CommandLine.Grammar
import BatteryLink.Json.Writer
import BatteryLink.Lookup
import BatteryLink.Session.Alone
/-!
The command line: asking a device who it is, polling it once, and selecting a mode.
-/
namespace BatteryLink.CommandLine

inductive Command where
  | probe (host : String) (port timeout : Int)
  | poll (host : String) (port : Int)
  | setMode (host : String) (port : Int) (mode : String)
  deriving DecidableEq, Repr

namespace Command

def program : String := "marstek-udp"

def helpOption : OptionRule := { names := ["-h", "--help"], isHelp := true }
def verboseOption : OptionRule := { names := ["-v", "--verbose"] }
def portOption : OptionRule := { names := ["--port"], takesNumber := true }
def timeoutOption : OptionRule := { names := ["--timeout"], takesNumber := true }
def hostWord : WordRule := { name := "host" }
def modeWord : WordRule := { name := "mode", choices := Request.selectableModes }

def usualPort : Int := 30000
def usualTimeout : Int := 5000

def grammar : Grammar where
  program := program
  options := [helpOption, verboseOption]
  words := [{ name := "command", choices := ["probe", "poll", "set-mode"], takesRest := true }]

def grammarOf (name : String) : Grammar where
  program := program ++ " " ++ name
  options := [helpOption, portOption] ++ if name = "probe" then [timeoutOption] else []
  words := [hostWord] ++ if name = "set-mode" then [modeWord] else []

def ofFound (name : String) (f : Found) : Command :=
  let host := f.word "host"
  let port := f.number "--port" usualPort
  match name with
  | "probe" => .probe host port (f.number "--timeout" usualTimeout)
  | "poll" => .poll host port
  | _ => .setMode host port (f.word "mode")

def parse (words : List String) : Parsed Command := do
  let (found, extras) ← grammar.read words
  let name := found.word "command"
  let (ofCommand, more) ← (grammarOf name).read found.rest
  match extras ++ more with
  | [] => return ofFound name ofCommand
  | unrecognized => grammar.fail (.unrecognized unrecognized)

end Command

structure Report where
  exit : Nat
  out : String := ""
  err : String := ""
  deriving DecidableEq, Repr

/-- A run that ends in trouble, after some output. A fault that is no interrupt is passed on. -/
def Report.ofTrouble (out : String) : Trouble → Except Fault Report
  | .refused e => .ok { exit := 2, out, err := "Error: " ++ e.message ++ "\n" }
  | .fault (.interrupt _) => .ok { exit := 2, out }
  | .fault f => .error f

def Report.ofEnding : Ending → Report
  | .help program => { exit := 0, out := Ending.line (.help program) ++ "\n" }
  | e => { exit := 2, err := e.line }

def configFor (host : String) (port : Int) : Except (Stopped (List Config.Issue)) Config :=
  Config.ofEntries [(.text "host", .text host), (.text "port", .int port)]

def Report.ofIssues : Stopped (List Config.Issue) → Except Fault Report
  | .fault f => .error f
  | .refused issues => do
    let message ← (issues.head?.map Config.Issue.message).getD (.ok "")
    .ok { exit := 2, err := "Invalid configuration: " ++ message ++ "\n" }

/-- The lines about the status in a list of notices. -/
def statusLines (ns : List Notice) : String :=
  String.join (ns.map fun
    | .reported status detail => statusLine status detail
    | _ => "")

def boardOf (ns : List Notice) : Board :=
  ns.foldl (fun b n =>
    match n with
    | .published channel content => b.put channel content
    | _ => b) []

section
variable {m : Type → Type} [Monad m]

/-- Runs one operation of a new session, which is disposed of at once after it. -/
def withSession (c : Carrier m) (config : Config) (o : Operation) :
    m (List Notice × Except Trouble Outcome) := do
  let (s, result) ← Routine.alone c (.start config true) o
  let (s, _) ← Routine.alone c s .dispose
  return (s.outbox, result)

def probe (c : Carrier m) (l : Lookup) : m (Except Fault Report) := do
  let out := "Querying " ++ endpointText l.host l.port ++ "...\n"
  let (_, a) ← c.exchange l.exchange
  return match Lookup.identity a with
    | .error t => Report.ofTrouble out t
    | .ok none => .ok { exit := 1, out := out ++ "No valid response received\n" }
    | .ok (some i) => do
      let model ← typed (.ofString "Model: " ++ i.modelSymbols)
      .ok { exit := 0, out := out ++ Json.writeTextLines i.members ++ "\n" ++ model }

def poll (c : Carrier m) (config : Config) : m (Except Fault Report) := do
  let (notices, result) ← withSession c config .poll
  let out := statusLines notices
  return match result with
    | .error t => Report.ofTrouble out t
    | .ok (.flag true) => do return { exit := 0, out := out ++ (← (boardOf notices).print) }
    | .ok _ => .ok { exit := 1, out := out ++ "Poll failed\n" }

def setMode (c : Carrier m) (config : Config) (mode : String) : m (Except Fault Report) := do
  let (notices, result) ← withSession c config (.selectMode (.text mode))
  let out := statusLines notices
  let accepted := match result with
    | .ok (.tally t) => t.ok
    | _ => false
  return match result with
    | .error t => Report.ofTrouble out t
    | .ok _ =>
      if accepted then .ok { exit := 0, out := out ++ mode ++ ": accepted\n" }
      else .ok { exit := 1, out := out ++ mode ++ ": rejected\n" }

def Command.run (c : Carrier m) : Command → m (Except Fault Report)
  | .probe host port timeout => CommandLine.probe c { host, port, timeout }
  | .poll host port =>
    match configFor host port with
    | .error e => return Report.ofIssues e
    | .ok config => CommandLine.poll c config
  | .setMode host port mode =>
    match configFor host port with
    | .error e => return Report.ofIssues e
    | .ok config => CommandLine.setMode c config mode

def run (c : Carrier m) (words : List String) : m (Except Fault Report) :=
  match Command.parse words with
  | .error e => return .ok (Report.ofEnding e)
  | .ok command => command.run c

end

end BatteryLink.CommandLine
