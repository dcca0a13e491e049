import BatteryLink.Schedule.Runner
/-!
Rehearsals: a runner on a clock of its own, with jobs that follow scripts, and a record of what
happens when.
-/
namespace BatteryLink

inductive Action where
  | sleep (milliseconds : Nat)
  /-- The job fails. -/
  | fail
  /-- The job gives up, and its handle with it. -/
  | giveUp
  | cancel (name : String)
  | launch (name job : String)
  | shutdown
  deriving DecidableEq, Repr

inductive Happening where
  | started (job : String) (count : Nat)
  | finished (job : String) (count : Nat)
  | failed (job : String) (count : Nat)
  | gaveUp (job : String) (count : Nat)
  | cancelled (name : String) (intime : Bool)
  deriving DecidableEq, Repr

/-- A job that is being run: what it still has to do. -/
structure Progress where
  run : RunId
  job : String
  count : Nat
  script : List Action

inductive RehearsalStep where
  | launch (name job : String) (plan : Plan)
  | cancel (name : String)
  | advance (milliseconds : Nat)
  | shutdown

/-- What stands on the agenda of a rehearsal. The one who waits for a shutdown is a run, or the
conductor, who is no run. -/
inductive Cue where
  | conductor
  | runner (call : RunnerCall (Option RunId))
  | resume (run : RunId)

structure Rehearsal where
  scripts : List (String × List Action)
  agenda : Agenda Cue := {}
  runner : Runner (Option RunId) := {}
  names : List (String × HandleId) := []
  jobs : List (HandleId × String) := []
  nextHandle : HandleId := 1
  counts : List (String × Nat) := []
  running : List Progress := []
  happenings : List (Nat × Happening) := []
  /-- Whether the conductor waits. -/
  waiting : Bool := false

namespace Rehearsal

def note (s : Rehearsal) (h : Happening) : Rehearsal :=
  { s with happenings := s.happenings ++ [(s.agenda.milliseconds, h)] }

def withRunner (s : Rehearsal) (runner : Runner (Option RunId)) (calls : Runner.Calls (Option RunId)) :
    Rehearsal :=
  { s with runner, agenda := s.agenda.runAll .runner calls }

def launch (s : Rehearsal) (name job : String) (plan : Plan) : Rehearsal :=
  let h := s.nextHandle
  let (runner, calls) := s.runner.launch h plan
  { s.withRunner runner calls with
    names := (name, h) :: s.names.filter (·.1 != name)
    jobs := (h, job) :: s.jobs
    nextHandle := h + 1 }

def handle? (s : Rehearsal) (name : String) : Option HandleId :=
  (s.names.find? (·.1 == name)).map (·.2)

def cancel (s : Rehearsal) (name : String) : Rehearsal × Bool :=
  match s.handle? name with
  | none => (s, false)
  | some h =>
    let (runner, calls, intime) := s.runner.cancel h
    (s.withRunner runner calls, intime)

def finish (s : Rehearsal) (run : RunId) (givenUp : Bool) : Rehearsal :=
  let (runner, calls) := s.runner.endRun run givenUp
  { s.withRunner runner calls with running := s.running.filter (·.run != run) }

/-- Keeps the rest of a script for later. -/
def suspend (s : Rehearsal) (p : Progress) (rest : List Action) : Rehearsal :=
  { s with running := { p with script := rest } :: s.running.filter (·.run != p.run) }

/-- Goes on with a script up to the next thing that takes time. -/
def perform (s : Rehearsal) (p : Progress) : List Action → Rehearsal
  | [] => (s.note (.finished p.job p.count)).finish p.run false
  | .sleep ms :: rest =>
    let s := s.suspend p rest
    { s with agenda := s.agenda.pause (.ofRatio false ms 1000) (.resume p.run) }
  | .fail :: _ => (s.note (.failed p.job p.count)).finish p.run false
  | .giveUp :: _ => (s.note (.gaveUp p.job p.count)).finish p.run true
  | .cancel name :: rest =>
    let (s, intime) := s.cancel name
    perform (s.note (.cancelled name intime)) p rest
  | .launch name job :: rest => perform (s.launch name job .once) p rest
  | .shutdown :: rest =>
    let (runner, calls, waits) := s.runner.shutdown (some p.run) (some p.run)
    let s := s.withRunner runner calls
    if waits then s.suspend p rest else perform s p rest

def countOf (s : Rehearsal) (job : String) : Nat :=
  ((s.counts.find? (·.1 == job)).map (·.2)).getD 0

def jobOf (s : Rehearsal) (run : RunId) : String :=
  ((s.runner.origin? run).bind fun h => (s.jobs.find? (·.1 == h)).map (·.2)).getD ""

def begin (s : Rehearsal) (run : RunId) : Rehearsal :=
  let job := s.jobOf run
  let count := s.countOf job + 1
  let script := ((s.scripts.find? (·.1 == job)).map (·.2)).getD []
  { s with counts := (job, count) :: s.counts.filter (·.1 != job) }
    |>.note (.started job count) |>.perform ⟨run, job, count, script⟩ script

def resume (s : Rehearsal) (run : RunId) : Rehearsal :=
  match s.running.find? (·.run == run) with
  | none => s
  | some p => s.perform p p.script

def deliver (s : Rehearsal) : Cue → Rehearsal
  | .conductor => { s with waiting := false }
  | .resume run => s.resume run
  | .runner (.begin run) => s.begin run
  | .runner (.stopped none) => { s with waiting := false }
  | .runner (.stopped (some run)) => s.resume run
  | .runner call =>
    let (runner, calls) := s.runner.deliver call
    s.withRunner runner calls

/-- Does what stands on the agenda until the conductor goes on. -/
def settle : Nat → Rehearsal → Rehearsal
  | 0, s => s
  | fuel + 1, s =>
    if s.waiting then
      match s.agenda.next? with
      | none => s
      | some (cue, agenda) => settle fuel ({ s with agenda }.deliver cue)
    else s

/-- The conductor's part of a step. The result tells whether a handle was cancelled in time. -/
def conduct (s : Rehearsal) : RehearsalStep → Rehearsal × Option Bool
  | .launch name job plan => (s.launch name job plan, none)
  | .cancel name =>
    let (s, intime) := s.cancel name
    (s, some intime)
  | .advance ms =>
    ({ s with agenda := s.agenda.pause (.ofRatio false ms 1000) .conductor, waiting := true }, none)
  | .shutdown =>
    let (runner, calls, waits) := s.runner.shutdown none none
    ({ s.withRunner runner calls with waiting := waits }, none)

def step (fuel : Nat) (s : Rehearsal) (x : RehearsalStep) : Rehearsal × Option Bool :=
  let (s, result) := { s with happenings := [] }.conduct x
  (settle fuel s, result)

/-- The handles by name, in alphabetical order, and where they stand. -/
def standings (s : Rehearsal) : List (String × String) :=
  (s.names.mergeSort fun a b => decide (a.1 ≤ b.1)).map fun (name, h) =>
    (name, ((s.runner.find? h).map Handle.standing).getD "")

end Rehearsal
end BatteryLink
