import BatteryLink.Exchange
import BatteryLink.Identity
import BatteryLink.Request
/-!
Asking a device who it is, outside any session.
-/
namespace BatteryLink

structure Lookup where
  host : String
  port : Int
  localPort : Int := 0
  timeout : Int := 5000
  deriving DecidableEq, Repr

namespace Lookup

def exchange (l : Lookup) : Exchange :=
  ⟨l.host, l.port, Request.discoverText, l.localPort, l.timeout⟩

/-- What the answer tells about the device. A reply that cannot be read tells nothing. -/
def identity : Answered → Except Trouble (Option Identity)
  | .error t => .error t
  | .ok none => .ok none
  | .ok (some octets) =>
    match Reply.decode octets with
    | .error (.refused _) => .ok none
    | .error (.fault f) => .error (.fault f)
    | .ok r => orFault (Identity.ofResult r)

end Lookup
end BatteryLink
