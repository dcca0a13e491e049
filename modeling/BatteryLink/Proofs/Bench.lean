import BatteryLink.Proofs.Shutdown
import BatteryLink.Proofs.Workshop
/-!
What lies on the bench of a workshop: all that is to be done now in one queue, and the rest. Whatever
happens in a workshop is made of a few acts.
-/
namespace BatteryLink

/-- A plan that does not go on after a run, be it that the clock cannot tell when. -/
def Plan.IsOver (p : Plan) : Prop := ∀ rest d, p = .every rest → rest.onClock? ≠ some d

/-- A plan that leaves some time between two runs. -/
def Plan.Leaves (p : Plan) : Prop := ∀ rest d, p = .every rest → rest.onClock? = some d → d.leInt 0 = false

namespace Runner

/-- Those of some handles that have not ended. -/
def awake (r : Runner TaskId) (hs : List HandleId) : List HandleId :=
  hs.filter fun h => (r.find? h).any fun x => !x.ended

/-- What the turn of a handle comes to. -/
inductive Waking (r : Runner TaskId) (h : HandleId) : Runner TaskId × Calls TaskId → Prop
  | idle : (∀ x, r.find? h = some x → x.ended = true) → Waking r h (r, [])
  | sleeps {x : Handle} {phase : Phase} {span : Span} {d : Binary64} : x ∈ r.handles → x.id = h →
      x.ended = false → x.stopRequested = false → span.onClock? = some d →
      (x.phase = .starting ∧ x.plan = .after span ∧ phase = .delayed ∨
        (∃ run, x.phase = .running run) ∧ x.plan = .every span ∧ phase = .resting) →
      Waking r h (r.setHandle { x with phase }, [.pause d (.wake x.id)])
  | starts {x : Handle} : x ∈ r.handles → x.id = h → x.ended = false → x.stopRequested = false →
      (∀ run, x.phase ≠ .running run) → Waking r h (r.startRun x)
  | finishes {x : Handle} (cancelled : Bool) : x ∈ r.handles → x.id = h → x.ended = false →
      (x.stopRequested = true ∨ x.plan.IsOver) → Waking r h (r.finishHandle x cancelled)

theorem waking_sleep {r : Runner TaskId} {x : Handle} {phase : Phase} {span : Span} (hx : x ∈ r.handles)
    (alive : x.ended = false) (going : x.stopRequested = false)
    (because : x.phase = .starting ∧ x.plan = .after span ∧ phase = .delayed ∨
      (∃ run, x.phase = .running run) ∧ x.plan = .every span ∧ phase = .resting) :
    Waking r x.id (r.sleep x phase span) := by
  unfold sleep
  split
  · next d hd => exact .sleeps hx rfl alive going hd because
  · next none =>
    refine .finishes false hx rfl alive (.inr fun rest d plan hd => ?_)
    rcases because with ⟨-, other, -⟩ | ⟨-, same, -⟩
    · cases other.symm.trans plan
    · cases same.symm.trans plan
      cases none.symm.trans hd

theorem waking_proceed {r : Runner TaskId} {x : Handle} (hx : x ∈ r.handles) (alive : x.ended = false)
    (going : x.stopRequested = false) : Waking r x.id (r.proceed x) := by
  have starts (idle : ∀ run, x.phase ≠ .running run) : Waking r x.id (r.startRun x) :=
    .starts hx rfl alive going idle
  unfold proceed
  split
  · next phase plan => exact waking_sleep hx alive going (.inl ⟨phase, plan, rfl⟩)
  · next phase _ => exact starts (by rw [phase]; nofun)
  · next phase => exact starts (by rw [phase]; nofun)
  · next phase => exact starts (by rw [phase]; nofun)
  · next run rest phase plan => exact waking_sleep hx alive going (.inr ⟨⟨run, phase⟩, plan, rfl⟩)
  · next plan =>
    refine .finishes false hx rfl alive (.inr fun rest d every _ => ?_)
    exact plan rest every
  · next cancelled phase =>
    unfold Handle.ended at alive
    rw [phase] at alive
    cases alive

theorem waking (r : Runner TaskId) (h : HandleId) : Waking r h (r.wake h) := by
  unfold wake
  cases hx : r.find? h with
  | none => exact .idle (by rw [hx]; nofun)
  | some x =>
    obtain ⟨mem, rfl⟩ := Clockwork.mem_of_find? hx
    dsimp only
    split
    · next ended =>
      refine .idle fun y hy => ?_
      cases hx.symm.trans hy
      exact ended
    · next alive =>
      have alive := Bool.eq_false_iff.mpr alive
      split
      · next asked => exact .finishes true mem rfl alive (.inl asked)
      · next going => exact waking_proceed mem alive (Bool.eq_false_iff.mpr going)

/-- The runner after the job of a run has ended, with a handle that may have waited for it. -/
def afterRun (r : Runner TaskId) (x : Option Handle) : RunEnd → Runner TaskId
  | .givenUp => x.toList.foldl (fun r x => r.setHandle { x with stopRequested := true }) r
  | _ => r

/-- All that is tracked has ended. -/
structure Settled (r : Runner TaskId) : Prop where
  handles : ∀ h ∈ r.tracked, ∀ x, r.find? h = some x → x.ended = true
  runs : ∀ l ∈ r.live, l.ended = true

/-- Somebody waits for all that is tracked and has not ended. -/
structure AwaitedBy (r : Runner TaskId) (v : Waiter TaskId) : Prop where
  handles : ∀ h ∈ r.tracked, ∀ x, r.find? h = some x → x.ended = false → h ∈ v.handles
  runs : ∀ l ∈ r.live, l.ended = false → l.id ∈ v.runs

theorem find?_setHandle (r : Runner TaskId) (y : Handle) (i : HandleId) :
    (r.setHandle y).find? i = (r.find? i).map fun x => if x.id = y.id then y else x := by
  unfold setHandle find?
  rw [List.find?_map]
  congr 2
  funext x
  rw [Function.comp_apply]
  split
  · next same => rw [same]
  · rfl

theorem find?_cancel (r : Runner TaskId) (h i : HandleId) :
    ((r.cancel h).1.find? i).map (·.ended) = (r.find? i).map (·.ended) := by
  unfold cancel
  cases hx : r.find? h with
  | none => rfl
  | some x =>
    dsimp only
    split
    · rfl
    · obtain ⟨-, hid⟩ := Clockwork.mem_of_find? hx
      rw [find?_setHandle, Option.map_map]
      cases hy : r.find? i with
      | none => rfl
      | some y =>
        rw [Option.map_some, Option.map_some, Function.comp_apply]
        split
        · next same =>
          obtain ⟨-, yid⟩ := Clockwork.mem_of_find? hy
          rw [← yid, same, hid, hx] at hy
          cases hy
          rfl
        · rfl

theorem awake_cancel (r : Runner TaskId) (h : HandleId) (hs : List HandleId) :
    (r.cancel h).1.awake hs = r.awake hs := by
  have same : ∀ i, ((r.cancel h).1.find? i).any (fun x => !x.ended) = (r.find? i).any fun x => !x.ended := by
    intro i
    have ended := find?_cancel r h i
    cases hx : r.find? i with
    | none =>
      rw [hx] at ended
      rw [Option.map_eq_none_iff.mp ended]
    | some x =>
      rw [hx] at ended
      obtain ⟨y, hy, same⟩ := Option.map_eq_some_iff.mp ended
      rw [hy, Option.any_some, Option.any_some, same]
  unfold awake
  rw [funext same]

theorem cancel_calls (r : Runner TaskId) (h : HandleId) :
    (r.cancel h).2.1 = (r.awake [h]).map fun h => .post 0 (.wake h) := by
  unfold cancel awake
  cases hx : r.find? h with
  | none => simp [hx]
  | some x =>
    cases he : x.ended <;> simp [hx, he]

/-- All handles that have not ended are woken. -/
theorem cancelAll_calls (r : Runner TaskId) (hs : List HandleId) :
    (r.cancelAll hs).2 = (r.awake hs).map fun h => .post 0 (.wake h) := by
  induction hs generalizing r with
  | nil => rfl
  | cons h hs ih =>
    unfold cancelAll
    dsimp only
    rw [ih, cancel_calls, awake_cancel, ← List.map_append]
    congr 1
    unfold awake
    rw [← List.filter_append]
    rfl

/-- Those who wait have no part in it. -/
theorem cancelAll_apart (r : Runner TaskId) (ws : List (Waiter TaskId)) (hs : List HandleId) :
    cancelAll { r with waiters := ws } hs =
      ({ (r.cancelAll hs).1 with waiters := ws }, (r.cancelAll hs).2) := by
  have one : ∀ (r : Runner TaskId) (h : HandleId), cancel { r with waiters := ws } h =
      ({ (r.cancel h).1 with waiters := ws }, (r.cancel h).2) := by
    intro r h
    have found : find? { r with waiters := ws } h = r.find? h := rfl
    unfold cancel
    rw [found]
    cases r.find? h with
    | none => rfl
    | some x =>
      dsimp only
      split <;> rfl
  induction hs generalizing r with
  | nil => rfl
  | cons h hs ih =>
    unfold cancelAll
    rw [one]
    dsimp only
    rw [ih]

/-- What a shutdown comes to. -/
inductive Shutting (r : Runner TaskId) (who : TaskId) (current : Option RunId) :
    Runner TaskId × Calls TaskId × Bool → Prop
  | atOnce : (r.cancelAll r.tracked).1.tracked = [] →
      (current = none → (r.cancelAll r.tracked).1.live = []) →
      Shutting r who current ((r.cancelAll r.tracked).1, (r.cancelAll r.tracked).2, false)
  | soon : (current = none → (r.cancelAll r.tracked).1.Settled) →
      Shutting r who current
        ((r.cancelAll r.tracked).1, (r.cancelAll r.tracked).2 ++ [.post 1 (.stopped who)], true)
  | later {v : Waiter TaskId} : v.who = who → (current = none → (r.cancelAll r.tracked).1.AwaitedBy v) →
      Shutting r who current ({ (r.cancelAll r.tracked).1 with
        waiters := (r.cancelAll r.tracked).1.waiters ++ [v] }, (r.cancelAll r.tracked).2, true)

theorem shutting (r : Runner TaskId) (who : TaskId) (current : Option RunId) :
    Shutting r who current (r.shutdown who current) := by
  unfold shutdown
  dsimp only
  generalize hq : (r.cancelAll r.tracked).1 = q
  have left : ∀ h ∈ q.tracked, ∀ x, q.find? h = some x → x.ended = false →
      h ∈ q.tracked.filter fun h => (q.find? h).any fun x => !x.ended := by
    intro h hh x hx alive
    refine List.mem_filter.mpr ⟨hh, ?_⟩
    rw [hx, Option.any_some, alive]
    rfl
  have running : current = none → ∀ l ∈ q.live, l.ended = false →
      l.id ∈ ((q.live.filter fun x => some x.id != current).filter fun x => !x.ended).map (·.id) := by
    rintro rfl l hl alive
    refine List.mem_map_of_mem (List.mem_filter.mpr ⟨List.mem_filter.mpr ⟨hl, rfl⟩, ?_⟩)
    rw [alive]
    rfl
  split
  · next none =>
    obtain ⟨none, idle⟩ := Bool.and_eq_true_iff.mp none
    subst hq
    refine .atOnce (List.isEmpty_iff.mp none) ?_
    rintro rfl
    have all : ((r.cancelAll r.tracked).1.live.filter fun x => some x.id != Option.none) =
        (r.cancelAll r.tracked).1.live := List.filter_eq_self.mpr fun x _ => rfl
    exact all.symm.trans (List.isEmpty_iff.mp idle)
  · split
    · next none =>
      obtain ⟨handles, runs⟩ := Bool.and_eq_true_iff.mp none
      rw [List.isEmpty_iff.mp handles] at left
      rw [List.isEmpty_iff.mp runs] at running
      subst hq
      refine .soon fun outside => ⟨fun h hh x hx => ?_, fun l hl => ?_⟩
      · by_contra alive
        cases left h hh x hx (Bool.eq_false_iff.mpr alive)
      · by_contra alive
        cases running outside l hl (Bool.eq_false_iff.mpr alive)
    · subst hq
      exact .later rfl fun outside => ⟨left, running outside⟩

end Runner

namespace Workshop

open Clockwork (Dismissed)

structure Bench where
  runner : Runner TaskId := {}
  queue : List (Nat × Item) := []
  timers : List (Timer Item) := []
  now : Binary64
  shutdowns : Nat := 0
  history : History := []

def bench (s : Workshop) : Bench :=
  ⟨s.runner, s.agenda.queue, s.agenda.timers, s.agenda.now, s.shutdowns, s.history⟩

namespace Bench

def wakes (turns : Nat) (hs : List HandleId) : List (Nat × Item) := hs.map fun h => (turns, some (.wake h))

def words (told : List TaskId) : List (Nat × Item) := told.map fun who => (1, some (.stopped who))

def note (w : Bench) (e : Event) : Bench := { w with history := (w.now, e) :: w.history }

def pause (w : Bench) (delay : Binary64) (item : Item) : Bench :=
  if delay.leInt 0 then { w with queue := w.queue ++ [(0, item)] }
  else { w with timers := Agenda.insertTimer ⟨w.now.add delay, 1, item⟩ w.timers }

/-- One who asks all handles to stop. -/
def asking (w : Bench) (who : TaskId) (current : Option RunId) : Bench :=
  { w with
    runner := (w.runner.cancelAll w.runner.tracked).1
    queue := w.queue ++ wakes 0 (w.runner.awake w.runner.tracked)
    shutdowns := who + 1
    history := (w.now, .stopping who current) :: w.history }

/-- A shutdown is asked for, with the next number. -/
inductive Stop (w : Bench) (current : Option RunId) : Bench → Prop
  | atOnce : (w.asking w.shutdowns current).runner.tracked = [] →
      (current = none → (w.asking w.shutdowns current).runner.live = []) →
      Stop w current ((w.asking w.shutdowns current).note
        (.stopped w.shutdowns (w.asking w.shutdowns current).runner.pending))
  | soon : (current = none → (w.asking w.shutdowns current).runner.Settled) →
      Stop w current { w.asking w.shutdowns current with
        queue := (w.asking w.shutdowns current).queue ++ words [w.shutdowns] }
  | later {v : Waiter TaskId} : v.who = w.shutdowns →
      (current = none → (w.asking w.shutdowns current).runner.AwaitedBy v) →
      Stop w current { w.asking w.shutdowns current with
        runner := { (w.asking w.shutdowns current).runner with
          waiters := (w.asking w.shutdowns current).runner.waiters ++ [v] } }

/-- All that happens on a bench. -/
inductive Act (w : Bench) : Bench → Prop
  | skips {n : Nat} {item : Item} {rest : List (Nat × Item)} : w.queue = (n + 1, item) :: rest →
      Act w { w with queue := rest ++ [(n, item)] }
  | rouses {now : Binary64} (due later : List (Timer Item)) : w.timers = due ++ later →
      (∀ t ∈ due, Agenda.isDue now t = true) → (w.queue ≠ [] → now = w.now) →
      (now = w.now ∨ ∃ t ts, w.timers = t :: ts ∧ now = t.due) →
      Act w { w with queue := w.queue ++ due.map (fun t => (t.turns, t.item)), timers := later, now }
  | posts (turns : Nat) : Act w { w with queue := w.queue ++ [(turns, none)] }
  | pauses (delay : Binary64) : Act w (w.pause delay none)
  | idles {item : Item} {rest : List (Nat × Item)} : w.queue = (0, item) :: rest →
      (∀ call, item = some call → ∃ h, call = .wake h ∧ ∀ x, w.runner.find? h = some x → x.ended = true) →
      Act w { w with queue := rest }
  | begins {run : RunId} {rest : List (Nat × Item)} : w.queue = (0, some (.begin run)) :: rest →
      Act w (note { w with queue := rest } (.began run))
  | reports {who : TaskId} {rest : List (Nat × Item)} : w.queue = (0, some (.stopped who)) :: rest →
      Act w (note { w with queue := rest } (.stopped who w.runner.pending))
  | forgetsHandle {h : HandleId} {rest : List (Nat × Item)} :
      w.queue = (0, some (.forgetHandle h)) :: rest →
      Act w { w with queue := rest, runner := w.runner.forgetHandle h }
  | forgetsRun {run : RunId} {rest : List (Nat × Item)} :
      w.queue = (0, some (.forgetRun run)) :: rest →
      Act w { w with queue := rest, runner := w.runner.forgetRun run }
  | sleeps {x : Handle} {phase : Phase} {span : Span} {d : Binary64} {rest : List (Nat × Item)} :
      w.queue = (0, some (.wake x.id)) :: rest → x ∈ w.runner.handles → x.ended = false →
      x.stopRequested = false → span.onClock? = some d →
      (x.phase = .starting ∧ x.plan = .after span ∧ phase = .delayed ∨
        (∃ run, x.phase = .running run) ∧ x.plan = .every span ∧ phase = .resting) →
      Act w (pause { w with queue := rest, runner := w.runner.setHandle { x with phase } } d
        (some (.wake x.id)))
  | starts {x : Handle} {rest : List (Nat × Item)} : w.queue = (0, some (.wake x.id)) :: rest →
      x ∈ w.runner.handles → x.ended = false → x.stopRequested = false →
      (∀ run, x.phase ≠ .running run) →
      Act w (note { w with
        queue := rest ++ [(0, some (.begin w.runner.nextRun))]
        runner := { w.runner.setHandle { x with phase := .running w.runner.nextRun } with
          live := w.runner.live ++ [{ id := w.runner.nextRun, handle := x.id }]
          nextRun := w.runner.nextRun + 1 } } (.created w.runner.nextRun x.id))
  | finishes {x : Handle} {waiters : List (Waiter TaskId)} {told : List TaskId}
      {rest : List (Nat × Item)} (cancelled : Bool) : w.queue = (0, some (.wake x.id)) :: rest →
      x ∈ w.runner.handles → x.ended = false → (x.stopRequested = true ∨ x.plan.IsOver) →
      Dismissed w.runner.waiters [x.id] [] waiters told → Act w { w with
        queue := rest ++ (0, some (.forgetHandle x.id)) :: words told
        runner := { w.runner.setHandle { x with phase := .ended cancelled } with waiters } }
  | runEnds {run : RunId} {waiters : List (Waiter TaskId)} {told : List TaskId} (how : RunEnd) :
      .began run ∈ w.history.events → ¬ w.history.Ended run →
      Dismissed w.runner.waiters [] [run] waiters told → Act w (note { w with
        queue := w.queue ++ (0, some (.forgetRun run)) ::
          (wakes 1 ((w.runner.waitingFor? run).toList.map Handle.id) ++ words told)
        runner := { (w.runner.afterRun (w.runner.waitingFor? run) how).markEnded run with waiters } }
        (.ended run how))
  | launches {h : HandleId} {plan : Plan} : (∀ x ∈ w.runner.handles, x.id ≠ h) → plan.Leaves →
      Act w (note { w with
        queue := w.queue ++ wakes 0 [h]
        runner := { w.runner with
          handles := w.runner.handles ++ [{ id := h, plan }], tracked := w.runner.tracked ++ [h] } }
        (.launched h plan))
  | cancels {h : HandleId} : (∃ x ∈ w.runner.handles, x.id = h) → Act w (note { w with
        queue := w.queue ++ wakes 0 (w.runner.awake [h])
        runner := (w.runner.cancelAll [h]).1 } (.cancelled h))
  | stops {v : Bench} (current : Option RunId) : Stop w current v → Act w v

abbrev Acts : Bench → Bench → Prop := Relation.ReflTransGen Act

def errand (w : Bench) : Agenda.Errand (RunnerCall TaskId) → Bench
  | .post turns call => { w with queue := w.queue ++ [(turns, some call)] }
  | .pause delay call => w.pause delay (some call)

def after (w : Bench) (runner : Runner TaskId) (calls : Runner.Calls TaskId) : Bench :=
  calls.foldl errand { w with runner }

end Bench

theorem bench_pause (s : Workshop) (delay : Binary64) (item : Item) :
    bench { s with agenda := s.agenda.pause delay item } = s.bench.pause delay item := by
  unfold Agenda.pause Bench.pause
  split
  · simp [bench, Agenda.post, Agenda.queue]
  · rfl

theorem bench_post (s : Workshop) (turns : Nat) (item : Item) :
    bench { s with agenda := s.agenda.post turns item } =
      { s.bench with queue := s.bench.queue ++ [(turns, item)] } := by
  simp [bench, Agenda.post, Agenda.queue]

theorem bench_after (s : Workshop) (runner : Runner TaskId) (calls : Runner.Calls TaskId) :
    (s.after runner calls).bench = s.bench.after runner calls := by
  suffices ∀ (t : Workshop), bench { t with agenda := t.agenda.runAll some calls } =
      calls.foldl Bench.errand t.bench from this { s with runner }
  induction calls with
  | nil => exact fun _ => rfl
  | cons e calls ih =>
    intro t
    cases e with
    | post turns call =>
      refine (ih { t with agenda := t.agenda.post turns (some call) }).trans ?_
      rw [bench_post]
      rfl
    | pause delay call =>
      refine (ih { t with agenda := t.agenda.pause delay (some call) }).trans ?_
      rw [bench_pause]
      rfl

theorem act_pass (s : Workshop) {a : Agenda Item} (h : s.agenda.Pass a) :
    Bench.Act s.bench (bench { s with agenda := a }) := by
  cases h with
  | @skips n item rest queue moved timers now =>
    have same : bench { s with agenda := a } = { s.bench with queue := rest ++ [(n, item)] } := by
      simp [bench, moved, timers, now]
    rw [same]
    exact .skips queue
  | rouse due split grown isDue still moves =>
    have same : bench { s with agenda := a } = { s.bench with
        queue := s.bench.queue ++ due.map (fun t => (t.turns, t.item)), timers := a.timers, now := a.now } := by
      simp [bench, grown]
    rw [same]
    exact .rouses due a.timers split isDue still moves

theorem acts_passes (s : Workshop) {a : Agenda Item} (h : s.agenda.Passes a) :
    Bench.Acts s.bench (bench { s with agenda := a }) := by
  induction h with
  | refl => exact .refl
  | tail _ pass ih => exact ih.tail (act_pass { s with agenda := _ } pass)

/-- What the runner posts, on the agenda. -/
def posted : Agenda.Errand (RunnerCall TaskId) → Nat × Item
  | .post turns call => (turns, some call)
  | .pause _ call => (0, some call)

theorem foldl_post (w : Bench) {calls : Runner.Calls TaskId}
    (h : ∀ e ∈ calls, ∃ turns call, e = .post turns call) :
    calls.foldl Bench.errand w = { w with queue := w.queue ++ calls.map posted } := by
  induction calls generalizing w with
  | nil => simp
  | cons e calls ih =>
    obtain ⟨turns, call, rfl⟩ := h e List.mem_cons_self
    rw [List.foldl_cons, ih _ fun e he => h e (List.mem_cons_of_mem _ he)]
    simp [Bench.errand, posted]

theorem after_post (w : Bench) (runner : Runner TaskId) {calls : Runner.Calls TaskId}
    (h : ∀ e ∈ calls, ∃ turns call, e = .post turns call) :
    w.after runner calls = { w with runner, queue := w.queue ++ calls.map posted } :=
  foldl_post { w with runner } h

theorem posted_wakes (turns : Nat) (hs : List HandleId) :
    (hs.map fun h => (.post turns (.wake h) : Agenda.Errand (RunnerCall TaskId))).map posted =
      Bench.wakes turns hs := by
  rw [List.map_map]
  rfl

theorem posted_words (told : List TaskId) :
    (told.map fun who => (.post 1 (.stopped who) : Agenda.Errand (RunnerCall TaskId))).map posted =
      Bench.words told := by
  rw [List.map_map]
  rfl

theorem posts_map {α : Type} (turns : Nat) (f : α → RunnerCall TaskId) (l : List α) :
    ∀ e ∈ l.map (fun a => (.post turns (f a) : Agenda.Errand (RunnerCall TaskId))),
      ∃ turns call, e = .post turns call :=
  List.forall_mem_map.mpr fun _ _ => ⟨_, _, rfl⟩

theorem finishHandle_eq (r : Runner TaskId) (x : Handle) (cancelled : Bool) : ∃ waiters told,
    Dismissed r.waiters [x.id] [] waiters told ∧ r.finishHandle x cancelled =
      ({ r.setHandle { x with phase := .ended cancelled } with waiters },
        .post 0 (.forgetHandle x.id) :: told.map fun who => .post 1 (.stopped who)) := by
  obtain ⟨waiters, told, dismissed, eq⟩ :=
    Clockwork.dismiss_eq (r.setHandle { x with phase := .ended cancelled }) [x.id] []
  refine ⟨waiters, told, dismissed, ?_⟩
  unfold Runner.finishHandle
  rw [eq]

theorem act_wake {s : Workshop} {w : Bench} {h : HandleId} {rest : List (Nat × Item)}
    (taken : w.queue = (0, some (.wake h)) :: rest) (left : s.bench = { w with queue := rest }) :
    Bench.Act w (s.wake h).bench := by
  have runner : s.runner = w.runner := congrArg Bench.runner left
  have silent : ∀ (r : Runner TaskId) (calls : Runner.Calls TaskId), s.runner.wake h = (r, calls) →
      r.nextRun = w.runner.nextRun → (s.wake h).bench = Bench.after { w with queue := rest } r calls := by
    intro r calls woken same
    unfold wake
    rw [woken]
    dsimp only
    rw [if_neg (by rw [runner, same]; exact Nat.lt_irrefl _), bench_after, left]
  have woken := Runner.waking s.runner h
  generalize hp : s.runner.wake h = p at woken
  rw [runner] at woken
  cases woken with
  | idle idle =>
    rw [silent _ _ hp rfl]
    refine .idles taken fun call hc => ?_
    cases hc
    exact ⟨h, rfl, idle⟩
  | sleeps hx id alive going hd because =>
    subst id
    rw [silent _ _ hp rfl]
    exact .sleeps taken hx alive going hd because
  | @starts x hx id alive going idle =>
    subst id
    have noted : (s.wake x.id).bench = Bench.note (Bench.after { w with queue := rest } (w.runner.startRun x).1
        (w.runner.startRun x).2) (.created w.runner.nextRun x.id) := by
      unfold wake
      rw [hp, runner]
      dsimp only
      rw [if_pos (show w.runner.nextRun < (w.runner.startRun x).1.nextRun from Nat.lt_succ_self _), ← left,
        ← bench_after]
      rfl
    rw [noted]
    exact .starts taken hx alive going idle
  | @finishes x cancelled hx id alive because =>
    subst id
    obtain ⟨waiters, told, dismissed, finished⟩ := finishHandle_eq w.runner x cancelled
    rw [finished] at hp
    rw [silent _ _ hp rfl]
    have act : Bench.Act w _ := .finishes cancelled taken hx alive because dismissed
    rw [after_post _ _ (List.forall_mem_cons.mpr ⟨⟨_, _, rfl⟩, posts_map 1 .stopped told⟩), List.map_cons,
      posted_words]
    exact act

theorem act_deliver {s : Workshop} {w : Bench} {item : Item} {rest : List (Nat × Item)}
    (taken : w.queue = (0, item) :: rest) (left : s.bench = { w with queue := rest }) :
    Bench.Act w (s.deliver item).bench := by
  have runner : s.runner = w.runner := congrArg Bench.runner left
  rcases item with - | (h | run | h | run | who)
  · rw [show s.deliver none = s from rfl, left]
    exact .idles taken nofun
  · exact act_wake taken left
  · have begun : (s.note (.began run)).bench = s.bench.note (.began run) := rfl
    rw [show s.deliver _ = s.note _ from rfl, begun, left]
    exact .begins taken
  · have forgotten : bench { s with runner := s.runner.forgetHandle h } =
        { s.bench with runner := s.runner.forgetHandle h } := rfl
    rw [show s.deliver _ = { s with runner := _ } from rfl, forgotten, runner, left]
    exact .forgetsHandle taken
  · have forgotten : bench { s with runner := s.runner.forgetRun run } =
        { s.bench with runner := s.runner.forgetRun run } := rfl
    rw [show s.deliver _ = { s with runner := _ } from rfl, forgotten, runner, left]
    exact .forgetsRun taken
  · have reported : (s.note (.stopped who s.runner.pending)).bench =
        s.bench.note (.stopped who s.runner.pending) := rfl
    rw [show s.deliver _ = s.note _ from rfl, reported, runner, left]
    exact .reports taken

theorem acts_turn (s : Workshop) : Bench.Acts s.bench s.turn.bench := by
  unfold turn
  cases hn : s.agenda.next? with
  | none => exact .refl
  | some next =>
    obtain ⟨item, agenda⟩ := next
    obtain ⟨a, passes, taken, timers, now⟩ := Agenda.next?_eq hn
    refine (acts_passes s passes).tail (act_deliver taken ?_)
    simp [bench, timers, now]

theorem act_launch {s : Workshop} {h : HandleId} (unknown : s.runner.find? h = none) {plan : Plan}
    (leaves : plan.Leaves) : Bench.Act s.bench (s.launch h plan).bench := by
  have fresh : ∀ x ∈ s.runner.handles, x.id ≠ h := by
    intro x hx same
    exact List.find?_eq_none.mp unknown x hx (beq_iff_eq.mpr same)
  have launched : (s.launch h plan).bench =
      (s.bench.after (s.runner.launch h plan).1 (s.runner.launch h plan).2).note (.launched h plan) := by
    rw [← bench_after]
    rfl
  rw [launched]
  exact .launches fresh leaves

theorem act_cancel {s : Workshop} {h : HandleId} (known : (s.runner.find? h).isSome) :
    Bench.Act s.bench (s.cancel h).bench := by
  obtain ⟨x, hx⟩ := Option.isSome_iff_exists.mp known
  obtain ⟨mem, rfl⟩ := Clockwork.mem_of_find? hx
  have cancelled : (s.cancel x.id).bench =
      (s.bench.after (s.runner.cancel x.id).1 (s.runner.cancel x.id).2.1).note (.cancelled x.id) := by
    rw [← bench_after]
    rfl
  rw [cancelled, Runner.cancel_calls, after_post _ _ (posts_map 0 .wake _), posted_wakes]
  exact .cancels ⟨x, mem, rfl⟩

theorem endRun_eq (r : Runner TaskId) (run : RunId) (how : RunEnd) : ∃ waiters told,
    Dismissed r.waiters [] [run] waiters told ∧ r.endRun run (how == .givenUp) =
      ({ (r.afterRun (r.waitingFor? run) how).markEnded run with waiters },
        .post 0 (.forgetRun run) :: (((r.waitingFor? run).toList.map Handle.id).map fun h => .post 1 (.wake h)) ++
          told.map fun who => .post 1 (.stopped who)) := by
  obtain ⟨waiters, told, dismissed, eq⟩ :=
    Clockwork.dismiss_eq ((r.afterRun (r.waitingFor? run) how).markEnded run) [] [run]
  have same : ((r.afterRun (r.waitingFor? run) how).markEnded run).waiters = r.waiters := by
    cases how <;> cases r.waitingFor? run <;> rfl
  rw [same] at dismissed
  refine ⟨waiters, told, dismissed, ?_⟩
  cases hw : r.waitingFor? run with
  | none =>
    have quiet : r.afterRun none how = r := by cases how <;> rfl
    rw [hw, quiet] at eq
    have ended : r.endRun run (how == .givenUp) = (((r.markEnded run).dismiss [] [run]).1,
        .post 0 (.forgetRun run) :: ((r.markEnded run).dismiss [] [run]).2) := by
      have waits : (r.markEnded run).waitingFor? run = none := hw
      unfold Runner.endRun
      unfold Runner.markEnded at waits ⊢
      dsimp only
      rw [waits]
    rw [ended, eq, quiet]
    rfl
  | some x =>
    rw [hw] at eq
    have chosen : (if (how == .givenUp) = true then (r.markEnded run).setHandle { x with stopRequested := true }
        else r.markEnded run) = (r.afterRun (some x) how).markEnded run := by
      cases how <;> rfl
    have ended : r.endRun run (how == .givenUp) = ((((r.afterRun (some x) how).markEnded run).dismiss [] [run]).1,
        .post 0 (.forgetRun run) :: .post 1 (.wake x.id) ::
          (((r.afterRun (some x) how).markEnded run).dismiss [] [run]).2) := by
      rw [← chosen]
      have waits : (r.markEnded run).waitingFor? run = some x := hw
      unfold Runner.endRun
      unfold Runner.markEnded at waits ⊢
      dsimp only
      rw [waits]
    rw [ended, eq]
    rfl

theorem isUnderWay_iff {s : Workshop} {run : RunId} :
    s.isUnderWay run = true ↔ .began run ∈ s.history.events ∧ ¬ s.history.Ended run := by
  unfold isUnderWay History.Ended
  rw [Bool.and_eq_true_iff, List.contains_iff_mem, Bool.not_eq_true', List.any_eq_false]
  refine and_congr_right fun _ => ⟨fun none ⟨how, ended⟩ => none _ ended (beq_self_eq_true run), ?_⟩
  intro none e he ended
  cases e with
  | ended r how =>
    cases beq_iff_eq.mp ended
    exact none ⟨how, he⟩
  | _ => cases ended

theorem act_finish {s : Workshop} {run : RunId} (underWay : s.isUnderWay run = true) (how : RunEnd) :
    Bench.Act s.bench (s.finish run how).bench := by
  obtain ⟨began, going⟩ := isUnderWay_iff.mp underWay
  obtain ⟨waiters, told, dismissed, eq⟩ := endRun_eq s.runner run how
  have ended : (s.finish run how).bench = (s.bench.after (s.runner.endRun run (how == .givenUp)).1
      (s.runner.endRun run (how == .givenUp)).2).note (.ended run how) := by
    rw [← bench_after]
    rfl
  rw [ended, eq]
  rw [after_post _ _ (List.forall_mem_append.mpr
    ⟨List.forall_mem_cons.mpr ⟨⟨_, _, rfl⟩, posts_map 1 .wake _⟩, posts_map 1 .stopped told⟩), List.map_append,
    List.map_cons, posted_wakes, posted_words]
  exact .runEnds how began going dismissed

theorem stop_shutdown (s : Workshop) (current : Option RunId) :
    Bench.Stop s.bench current (s.shutdown current).bench := by
  have asking : s.bench.asking s.shutdowns current = Bench.note { s.bench.after
      (s.runner.cancelAll s.runner.tracked).1 (s.runner.cancelAll s.runner.tracked).2 with
      shutdowns := s.shutdowns + 1 } (.stopping s.shutdowns current) := by
    rw [Runner.cancelAll_calls, after_post _ _ (posts_map 0 .wake _), posted_wakes]
    rfl
  have shuts := Runner.shutting s.runner s.shutdowns current
  unfold shutdown
  dsimp only
  generalize s.runner.shutdown s.shutdowns current = p at shuts
  have noted : ∀ r calls, Bench.note { s.bench.after r calls with shutdowns := s.shutdowns + 1 }
      (.stopping s.shutdowns current) =
        (note { s.after r calls with shutdowns := s.shutdowns + 1 } (.stopping s.shutdowns current)).bench := by
    intro r calls
    rw [← bench_after]
    rfl
  cases shuts with
  | atOnce tracked live =>
    rw [if_neg Bool.false_ne_true]
    have act : Bench.Stop s.bench current _ := .atOnce tracked live
    change Bench.Stop s.bench current ((note { s.after _ _ with shutdowns := _ } _).bench.note _)
    rw [← noted, ← asking]
    exact act
  | soon settled =>
    rw [if_pos rfl, ← noted]
    have act : Bench.Stop s.bench current _ := .soon settled
    have more : Bench.note { s.bench.after (s.runner.cancelAll s.runner.tracked).1
        ((s.runner.cancelAll s.runner.tracked).2 ++ [.post 1 (.stopped s.shutdowns)]) with
          shutdowns := s.shutdowns + 1 } (.stopping s.shutdowns current) =
        { s.bench.asking s.shutdowns current with
          queue := (s.bench.asking s.shutdowns current).queue ++ Bench.words [s.shutdowns] } := by
      rw [asking, Bench.after, List.foldl_append]
      rfl
    rw [more]
    exact act
  | @later v who awaited =>
    rw [if_pos rfl, ← noted]
    have act : Bench.Stop s.bench current _ := .later who awaited
    have waits : ∀ ws : List (Waiter TaskId), Bench.note { s.bench.after
        { (s.runner.cancelAll s.runner.tracked).1 with waiters := ws }
          (s.runner.cancelAll s.runner.tracked).2 with
          shutdowns := s.shutdowns + 1 } (.stopping s.shutdowns current) =
        { s.bench.asking s.shutdowns current with
          runner := { (s.bench.asking s.shutdowns current).runner with waiters := ws } } := by
      intro ws
      rw [Runner.cancelAll_calls, after_post _ _ (posts_map 0 .wake _), posted_wakes]
      rfl
    rw [waits]
    exact act

/-- What is asked for leaves some time between two runs, or it is refused. -/
theorem leaves_plan {c : Commission} {plan : Plan} (h : c.plan = .ok plan) : plan.Leaves := by
  rintro rest d rfl hd
  cases c with
  | once => cases h
  | after delay =>
    unfold Commission.plan Plan.afterSeconds at h
    dsimp only at h
    split at h <;> cases h
  | every interval =>
    unfold Commission.plan Plan.everySeconds at h
    dsimp only at h
    split at h
    · next span _ =>
      split at h
      · cases hs : interval.display <;> rw [hs] at h <;> cases h
      · next busy =>
        cases h
        cases rest with
        | whole n => exact Binary64.leInt_ofInt? (by simpa [Plan.isIdle] using busy) hd
        | seconds s =>
          cases hd
          exact Bool.eq_false_iff.mpr busy
    · cases h

/-- Every move is made of acts. -/
theorem acts_step (s : Workshop) (m : Move) : Bench.Acts s.bench (s.step m).bench := by
  cases m with
  | turn => exact acts_turn s
  | post turns => exact .single (bench_post s turns none ▸ .posts turns)
  | pause delay => exact .single (bench_pause s delay none ▸ .pauses delay)
  | launch h c =>
    unfold step
    dsimp only
    split
    · next unknown hp => exact .single (act_launch unknown (leaves_plan hp))
    · exact .refl
  | cancel h =>
    unfold step
    dsimp only
    split
    · next known => exact .single (act_cancel known)
    · exact .refl
  | finish run how =>
    unfold step
    dsimp only
    split
    · next underWay => exact .single (act_finish underWay how)
    · exact .refl
  | shutdown current => exact .single (.stops current (stop_shutdown s current))

end Workshop
end BatteryLink
