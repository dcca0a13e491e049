import BatteryLink.Session.Routine
/-!
A routine that is carried out from its start to its end while nothing else is asked of the session.
Whoever carries it out performs the exchanges and the pauses; jobs that the session leaves to a
scheduler are not run.
-/
namespace BatteryLink

/-- One who performs what a routine waits for. An exchange comes back with the time of its end. -/
structure Carrier (m : Type → Type) where
  exchange : Exchange → m (Moment × Answered)
  rest : Nat → m Unit

namespace Routine

/-- Exchanges and pauses that are enough for any routine: a poll has seven exchanges, and an
activation one exchange and one pause for each slot. -/
def enough (slots : Nat) : Nat := 8 + 2 * slots

def carryOut {m : Type → Type} [Monad m] (c : Carrier m) :
    Nat → Session → Turn Next → m (Session × Except Trouble Outcome)
  | fuel, s, turn =>
    match turn.run.run s with
    | (.error t, s) => pure (s, .error t)
    | (.ok (.done o), s) => pure (s, .ok o)
    | (.ok .stopRunner, s) => pure (s, .ok .nothing)
    | (.ok (.queue _), s) => pure (s, .ok .nothing)
    | (.ok (.ask x k), s) =>
      match fuel with
      | 0 => pure (s, .ok .nothing)
      | fuel + 1 => do
        let (now, a) ← c.exchange x
        carryOut c fuel s (answered now k a)
    | (.ok (.pause w), s) =>
      match fuel with
      | 0 => pure (s, .ok .nothing)
      | fuel + 1 => do
        c.rest Order.slotPause
        carryOut c fuel s (rested w)

def alone {m : Type → Type} [Monad m] (c : Carrier m) (s : Session) (o : Operation) :
    m (Session × Except Trouble Outcome) :=
  let slots := match o with
    | .activateManual slots => slots.length
    | _ => 4
  carryOut c (enough slots) s (perform 0 o)

end Routine
end BatteryLink
