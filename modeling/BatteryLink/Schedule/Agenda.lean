import BatteryLink.Number.Binary64
/-!
Agendas: what is to be done now, in order, and what later. Time moves only when there is nothing
left to do now, and then to the earliest thing that is due.

Things are done in rounds. What is put on the agenda during a round belongs to the next one, and
what has become due joins the queue between two rounds. An item may have to wait for some turns:
each time its turn comes it goes over to the next round, until no turns are left. So an answer that
is passed on through several hands arrives after everything that was to be done before it was passed
on for the last time.
-/
namespace BatteryLink

structure Timer (α : Type) where
  due : Binary64
  turns : Nat
  item : α

/-- The rest of a round and the round after it, with the turns that the items still wait, and items
for later by the time when they are due. Times are in seconds. -/
structure Agenda (α : Type) where
  now : Binary64 := .zero
  round : List (Nat × α) := []
  following : List (Nat × α) := []
  timers : List (Timer α) := []

namespace Agenda

variable {α : Type}

def post (a : Agenda α) (turns : Nat) (item : α) : Agenda α :=
  { a with following := a.following ++ [(turns, item)] }

def prepend (a : Agenda α) (item : α) : Agenda α := { a with round := (0, item) :: a.round }

def insertTimer (t : Timer α) : List (Timer α) → List (Timer α)
  | [] => [t]
  | u :: r => if t.due.lt u.due then t :: u :: r else u :: insertTimer t r

/-- Adds an item that joins the queue after a number of seconds. -/
def later (a : Agenda α) (delay : Binary64) (turns : Nat) (item : α) : Agenda α :=
  { a with timers := insertTimer ⟨a.now.add delay, turns, item⟩ a.timers }

/-- An item that takes its turn in the next round if there is nothing to wait for. -/
def pause (a : Agenda α) (delay : Binary64) (item : α) : Agenda α :=
  if delay.leInt 0 then a.post 0 item else a.later delay 1 item

/-- The items before the first one that has no turns left, as they go over to the next round; that
item; and the rest. -/
def takeTurn : List (Nat × α) → List (Nat × α) × Option (α × List (Nat × α))
  | [] => ([], none)
  | (0, x) :: r => ([], some (x, r))
  | (n + 1, x) :: r =>
    let (waiting, taken) := takeTurn r
    ((n, x) :: waiting, taken)

/-- Timers do not tell times apart that are closer than this, a nanosecond. -/
def resolution : Binary64 := .ofRatio false 1 1000000000

/-- Whether a timer is due. One whose time is no number always is. -/
def isDue (now : Binary64) (t : Timer α) : Bool :=
  t.due.le now || !(now.add resolution).le t.due

def nextTime (a : Agenda α) : Binary64 :=
  match a.following, a.timers with
  | [], t :: _ => if a.now.lt t.due then t.due else a.now
  | _, _ => a.now

def nextRound (a : Agenda α) : Agenda α :=
  let now := a.nextTime
  { now
    round := a.following ++ (a.timers.takeWhile (isDue now)).map fun t => (t.turns, t.item)
    following := []
    timers := a.timers.dropWhile (isDue now) }

/-- The next item to be done, and the agenda without it. It comes up within a number of rounds that
the turns on the agenda allow for. -/
def nextWithin : Nat → Agenda α → Option (α × Agenda α)
  | 0, _ => none
  | rounds + 1, a =>
    match takeTurn a.round with
    | (waiting, some (x, round)) => some (x, { a with round, following := a.following ++ waiting })
    | (waiting, none) =>
      nextWithin rounds { a with round := [], following := a.following ++ waiting }.nextRound

/-- The most turns that an item of a list waits. -/
def mostTurns (q : List (Nat × α)) : Nat := (q.map (·.1)).foldr max 0

/-- The next item to be done, and the agenda without it. -/
def next? (a : Agenda α) : Option (α × Agenda α) :=
  let timers := (a.timers.map (·.turns)).foldr max 0
  nextWithin (max (mostTurns a.round) (max (mostTurns a.following) timers) + 3) a

/-- The time in milliseconds, rounded to the even neighbour where it lies between two. -/
def milliseconds (a : Agenda α) : Nat := a.now.thousandfold.toNat

inductive Errand (α : Type) where
  | post (turns : Nat) (item : α)
  | pause (delay : Binary64) (item : α)
  deriving Repr

/-- Does errands of a part of the program, whose items are wrapped on the way. -/
def runAll {β : Type} (a : Agenda α) (wrap : β → α) (es : List (Errand β)) : Agenda α :=
  es.foldl (fun a e =>
    match e with
    | .post turns item => a.post turns (wrap item)
    | .pause delay item => a.pause delay (wrap item)) a

end Agenda
end BatteryLink
