import BatteryLink.Board
import BatteryLink.Channel
import BatteryLink.Check
import BatteryLink.CommandLine.Grammar
import BatteryLink.CommandLine.Program
import BatteryLink.Config
import BatteryLink.Exchange
import BatteryLink.Fault
import BatteryLink.Health
import BatteryLink.Identity
import BatteryLink.Json.Encoding
import BatteryLink.Json.Reader
import BatteryLink.Json.Writer
import BatteryLink.Lookup
import BatteryLink.Main
import BatteryLink.Method
import BatteryLink.Moment
import BatteryLink.Number.Binary64
import BatteryLink.Number.Layout
import BatteryLink.Number.Reading
import BatteryLink.Number.Shortest
import BatteryLink.Proofs.Accounts
import BatteryLink.Proofs.Activation
import BatteryLink.Proofs.Addressing
import BatteryLink.Proofs.Agenda
import BatteryLink.Proofs.Bench
import BatteryLink.Proofs.Binary64
import BatteryLink.Proofs.Board
import BatteryLink.Proofs.Cancellation
import BatteryLink.Proofs.Carried
import BatteryLink.Proofs.Channel
import BatteryLink.Proofs.Clock
import BatteryLink.Proofs.Command
import BatteryLink.Proofs.Config
import BatteryLink.Proofs.Connection
import BatteryLink.Proofs.Course
import BatteryLink.Proofs.Crowd
import BatteryLink.Proofs.Cycle
import BatteryLink.Proofs.DeepReplies
import BatteryLink.Proofs.Delivery
import BatteryLink.Proofs.DisplayName
import BatteryLink.Proofs.Disposal
import BatteryLink.Proofs.Drain
import BatteryLink.Proofs.Envelope
import BatteryLink.Proofs.Exchange
import BatteryLink.Proofs.Exclusion
import BatteryLink.Proofs.Fields
import BatteryLink.Proofs.Foreign
import BatteryLink.Proofs.Frame
import BatteryLink.Proofs.Gate
import BatteryLink.Proofs.Health
import BatteryLink.Proofs.Identity
import BatteryLink.Proofs.Jobs
import BatteryLink.Proofs.Json.Grammar
import BatteryLink.Proofs.Json.Nesting
import BatteryLink.Proofs.Json.Numerals
import BatteryLink.Proofs.Json.Octets
import BatteryLink.Proofs.Json.RoundTrip
import BatteryLink.Proofs.Json.Strings
import BatteryLink.Proofs.Json.Texts
import BatteryLink.Proofs.Json.Values
import BatteryLink.Proofs.Lawful
import BatteryLink.Proofs.Life
import BatteryLink.Proofs.Lock
import BatteryLink.Proofs.News
import BatteryLink.Proofs.Order
import BatteryLink.Proofs.Outcomes
import BatteryLink.Proofs.Pace
import BatteryLink.Proofs.Poll
import BatteryLink.Proofs.Printable
import BatteryLink.Proofs.Program
import BatteryLink.Proofs.Progress
import BatteryLink.Proofs.Recognition
import BatteryLink.Proofs.Replies
import BatteryLink.Proofs.RequestChecks
import BatteryLink.Proofs.Requests
import BatteryLink.Proofs.Rest
import BatteryLink.Proofs.Returns
import BatteryLink.Proofs.Roster
import BatteryLink.Proofs.Routine
import BatteryLink.Proofs.Runner
import BatteryLink.Proofs.Runs
import BatteryLink.Proofs.Selection
import BatteryLink.Proofs.Service
import BatteryLink.Proofs.Setting
import BatteryLink.Proofs.Settings
import BatteryLink.Proofs.Shutdown
import BatteryLink.Proofs.Single
import BatteryLink.Proofs.Standing
import BatteryLink.Proofs.Stopping
import BatteryLink.Proofs.Tallies
import BatteryLink.Proofs.TimeOfDay
import BatteryLink.Proofs.Toggle
import BatteryLink.Proofs.Tracing
import BatteryLink.Proofs.Transactions
import BatteryLink.Proofs.Turn
import BatteryLink.Proofs.Updates
import BatteryLink.Proofs.Upkeep
import BatteryLink.Proofs.Usage
import BatteryLink.Proofs.Verdicts
import BatteryLink.Proofs.WeekdayLists
import BatteryLink.Proofs.WeekdayNames
import BatteryLink.Proofs.Weekdays
import BatteryLink.Proofs.Words
import BatteryLink.Proofs.Workshop
import BatteryLink.Proofs.WrittenTime
import BatteryLink.Published
import BatteryLink.Rejection
import BatteryLink.Reply
import BatteryLink.Request
import BatteryLink.Schedule.Agenda
import BatteryLink.Schedule.Plan
import BatteryLink.Schedule.Rehearsal
import BatteryLink.Schedule.Runner
import BatteryLink.Session.Alone
import BatteryLink.Session.Basic
import BatteryLink.Session.Diagnostics
import BatteryLink.Session.Order
import BatteryLink.Session.Poll
import BatteryLink.Session.Routine
import BatteryLink.Setting
import BatteryLink.Settings
import BatteryLink.Simulation.Carrier
import BatteryLink.Simulation.Device
import BatteryLink.Simulation.World
import BatteryLink.Status
import BatteryLink.Text.Blank
import BatteryLink.Text.CharRange
import BatteryLink.Text.Digit
import BatteryLink.Text.LowerCase
import BatteryLink.Text.Quoted
import BatteryLink.Text.Symbol
import BatteryLink.Text.Visible
import BatteryLink.Text.WordChar
import BatteryLink.TimeOfDay
import BatteryLink.Value
import BatteryLink.Weekdays
