import BatteryLink.CommandLine.Program
import Std.Async.DNS
import Std.Async.Select
import Std.Async.Timer
import Std.Async.UDP
import Std.Time.DateTime.Timestamp
/-!
The program: the command line on the network of this machine. What is done with an answer is decided
elsewhere; here datagrams are sent and received and the clock is read.
-/
namespace BatteryLink.Network

open Std Std.Async

/-- Milliseconds from the start of 1970 to the start of 2024. -/
def startOf2024 : Int := 1704067200000

def now : IO Moment := do
  let t ← Std.Time.Timestamp.now
  return ⟨(t.toMillisecondsSinceUnixEpoch.val - startOf2024).toNat⟩

def address? (host : String) (port : Int) : IO (Option Net.IPv4Addr) := do
  let found ← (DNS.getAddrInfo host (toString port) (some .ipv4)).block
  return found.toList.findSome? fun
    | .v4 a => some a
    | .v6 _ => none

def port16 (port : Int) : IO UInt16 :=
  if 0 ≤ port ∧ port < 65536 then return UInt16.ofNat port.toNat
  else throw (IO.userError "port must be 0-65535")

/-- Binds a socket to a local port and sends a request from it. -/
def sendFrom (socket : UDP.Socket) (x : Exchange) (target : Net.IPv4Addr) : IO Unit := do
  socket.bind (.v4 ⟨.ofParts 0 0 0 0, ← port16 x.localPort⟩)
  (socket.send x.payload.toUTF8 (some (.v4 ⟨target, ← port16 x.port⟩))).block

/-- Waits for a datagram, but no longer than the exchange does. -/
def receive (socket : UDP.Socket) (x : Exchange) : IO (Option Octets) :=
  Async.block do
    let patience ← Selector.sleep (.ofInt x.patience)
    Selectable.one #[
      .case (socket.recvSelector (UInt64.ofNat Exchange.bufferSize)) fun (data, _) =>
        return some data.toList,
      .case patience fun _ => return none]

/-- An act of the network; its failure is a trouble of the exchange. -/
def attempt {α : Type} (failure : String → TransportError) (act : IO α) : ExceptT Trouble IO α := do
  match ← act.toBaseIO with
  | .ok a => return a
  | .error e => throw (.refused (failure (toString e)))

/-- An exchange with a socket of its own. -/
def exchange (x : Exchange) : ExceptT Trouble IO (Option Octets) := do
  match ← attempt (.unresolved x.host) (address? x.host x.port) with
  | none => throw (.refused (.noAddress x.host))
  | some target => do
    let socket ← attempt .noSocket UDP.Socket.mk
    attempt (.notSent x.host x.port) (sendFrom socket x target)
    attempt (.notReceived x.host x.port) (receive socket x)

def carrier : Carrier IO where
  exchange x := do
    let a ← (exchange x).run
    return (← now, a)
  rest ms := IO.sleep (UInt32.ofNat ms)

/-- Prints what a run leaves behind. A usage problem is reported without a line feed at its end. -/
def print (r : CommandLine.Report) : IO UInt32 := do
  IO.print r.out
  if !r.err.isEmpty then
    IO.eprint (if r.err.endsWith "\n" then r.err else r.err ++ "\n")
  return UInt32.ofNat r.exit

end BatteryLink.Network

def main (args : List String) : IO UInt32 := do
  match ← BatteryLink.CommandLine.run BatteryLink.Network.carrier args with
  | .ok r => BatteryLink.Network.print r
  | .error f =>
    IO.eprintln (f.name ++ ": " ++ f.message)
    return 1
