import BatteryLink.Session.Alone
import BatteryLink.Simulation.Device
/-!
Exchanges with a simulated device, one after another.
-/
namespace BatteryLink.Simulation

/-- One who performs exchanges on a stage. Computing takes no time. -/
def carrier : Carrier (StateM Stage) where
  exchange x := modifyGet fun s =>
    let (trace, s) := s.exchange x
    ((⟨s.clock⟩, trace.answered), s)
  rest ms := modify fun s => { s with clock := s.clock + ms }

end BatteryLink.Simulation
