import BatteryLink.Proofs.Connection
import BatteryLink.Proofs.Disposal
import BatteryLink.Proofs.Tallies
/-!
A session that is there for one order only and is disposed of as soon as the device has answered it.
Whatever goes on by itself after that, the device is asked nothing any more: the poll that was to
follow the order is cancelled before it has begun.
-/
namespace BatteryLink

namespace Order

/-- The result of an order with one request. -/
def verdict (a : Answered) : Tally := ⟨if took a then 1 else 0, 1⟩

theorem verdict_ok (a : Answered) : (verdict a).ok = took a := by
  unfold verdict
  cases took a <;> rfl

theorem exec_finish_quiet (t : Tally) (s : Session) :
    (finish t none).exec s = (.ok (.ended t), s.concluded t none) := by
  unfold finish Session.concluded
  rw [Turn.exec_bind, Turn.exec_modify]
  cases h : t.ok <;> rfl

end Order

namespace Routine

variable {s : Session} {a : Answered}

/-- The exchange of an order that selects a mode. -/
def modeExchange (config : Config) (payload : String) : Exchange :=
  ⟨config.host, config.port, payload, config.localPort, Order.singleTimeout⟩

/-- What an order with one request waits for. -/
def modeAsked : Asked := .order (.single none)

theorem exec_selectMode {mode : Value} {payload : String} (good : Request.select mode = .ok payload)
    (self : TaskId) (free : s.lock.holder = none) (live : s.disposed = false) :
    (perform self (.selectMode mode)).exec s =
      (.ok (.ask (modeExchange s.config payload) modeAsked), s.locked self) := by
  change (selectMode self mode).exec s = _
  unfold selectMode
  rw [good]
  dsimp only
  rw [exec_order, free]
  dsimp only
  rw [exec_ofOrder, Order.exec_begin_single payload none (show (s.locked self).disposed = false from live)]
  rfl

theorem exec_modeAnswered (ordinary : ∀ e, a = .error e → ¬ e.OfUser) (now : Moment) (s : Session) :
    (answered now modeAsked a).exec s =
      (.ok (.done (.tally (Order.verdict a))), (s.concluded (Order.verdict a) none).released) := by
  change (ofOrder (Order.proceed (.single none) a)).exec s = _
  rw [exec_ofOrder, Order.proceed, Turn.exec_bind]
  rcases Order.exec_taken a s with ⟨e, failed, user, -⟩ | taken
  · exact absurd user (ordinary e failed)
  · rw [taken]
    dsimp only
    rw [Order.exec_finish_quiet]
    rfl

end Routine

namespace Clockwork

variable {w v : Clockwork}

/-- All handles have been asked to stop, and no run is about to begin. -/
structure RunsOut (w : Clockwork) : Prop where
  asked : ∀ x ∈ w.runner.handles, x.ended = false → x.stopRequested = true
  ready : ∀ p ∈ w.ready, ∀ run, p.2 ≠ .begin run

theorem RunsOut.append (h : w.RunsOut) (more : List (Nat × RunnerCall TaskId))
    (other : ∀ p ∈ more, ∀ run, p.2 ≠ .begin run) : { w with ready := w.ready ++ more }.RunsOut where
  asked := h.asked
  ready := List.forall_mem_append.mpr ⟨h.ready, other⟩

theorem not_begin_told (told : List TaskId) :
    ∀ p ∈ told.map fun who => ((1, .stopped who) : Nat × RunnerCall TaskId), ∀ run, p.2 ≠ .begin run :=
  List.forall_mem_map.mpr fun _ _ _ => nofun

theorem RunsOut.set (h : w.RunsOut) {x y : Handle} (hx : x ∈ w.runner.handles)
    (stop : x.stopRequested = true → y.ended = false → y.stopRequested = true) (alive : x.ended = false) :
    ∀ z ∈ (w.runner.setHandle y).handles, z.ended = false → z.stopRequested = true := by
  intro z hz going
  rcases mem_setHandle hz with rfl | ⟨hz, -⟩
  · exact stop (h.asked x hx alive) going
  · exact h.asked z hz going

/-- As long as nothing new is launched, no run begins. -/
theorem Tick.runsOut (t : Tick (fun _ _ => False) w v) (sound : w.Sound) (h : w.RunsOut) : v.RunsOut := by
  have less : ∀ {pre post : List (Nat × RunnerCall TaskId)} {p : Nat × RunnerCall TaskId},
      w.ready = pre ++ p :: post → ∀ q ∈ pre ++ post, ∀ run, q.2 ≠ .begin run :=
    fun split q hq => h.ready q (split ▸ mem_of_rest hq)
  cases t with
  | calls n id => exact h.append _ (List.forall_mem_singleton.mpr fun _ => nofun)
  | sleeps id => exact ⟨h.asked, h.ready⟩
  | rouses n split =>
    obtain ⟨id, rfl⟩ := sound.asleep _ (split ▸ List.mem_append_right _ List.mem_cons_self)
    have roused := h.append [(n, .wake id)] (List.forall_mem_singleton.mpr fun _ => nofun)
    exact ⟨roused.asked, roused.ready⟩
  | takes split _ _ => exact ⟨h.asked, less split⟩
  | launches plan none _ => exact none.elim
  | marks hx alive goes => exact ⟨h.set hx (fun asked _ => goes.stop asked) alive, h.ready⟩
  | ends cancelled hx alive _ =>
    refine ⟨h.set hx (fun asked _ => asked) alive, List.forall_mem_append.mpr ⟨h.ready, ?_⟩⟩
    exact List.forall_mem_cons.mpr ⟨fun _ => nofun, not_begin_told _⟩
  | starts hx alive going _ =>
    exact absurd (going.symm.trans (h.asked _ hx alive)) Bool.false_ne_true
  | runEnds wakes _ =>
    refine ⟨h.asked, List.forall_mem_append.mpr ⟨h.ready, List.forall_mem_cons.mpr ⟨fun _ => nofun, ?_⟩⟩⟩
    exact List.forall_mem_append.mpr ⟨List.forall_mem_map.mpr fun _ _ _ => nofun, not_begin_told _⟩
  | forgetsHandle split => exact ⟨h.asked, less split⟩
  | forgetsRun split => exact ⟨h.asked, less split⟩

theorem Ticks.runsOut (t : Ticks (fun _ _ => False) w v) (sound : w.Sound) (h : w.RunsOut) : v.RunsOut := by
  induction t with
  | refl => exact h
  | tail ts t ih => exact t.runsOut (Ticks.sound ts sound) ih

end Clockwork

namespace Crowd

open Routine (Cause modeExchange modeAsked)

/-- Whether a move is one of the host application. All others go on by themselves. -/
def Move.asks : Move → Bool
  | .start _ | .refresh | .post _ _ | .host _ => true
  | .answer _ _ _ | .rest _ | .grant _ | .run _ | .deliver _ | .wake _ _ => false

/-- Nothing is under way but the ends of disposals, and the runner runs out. -/
structure Leaving (c : Crowd) : Prop where
  owns : c.session.ownsRunner = true
  sound : c.clock.Sound
  runsOut : c.clock.RunsOut
  members : ∀ m ∈ c.members, m.waits = .stopRunner ∧ m.job = none ∧ m.run = none

/-- What the host application and the device notice is the same. -/
structure Unnoticed (c d : Crowd) : Prop where
  session : d.session = c.session
  jobs : d.jobs = c.jobs
  log : d.log = c.log

theorem Unnoticed.trans {c d e : Crowd} (h : c.Unnoticed d) (k : d.Unnoticed e) : c.Unnoticed e :=
  ⟨k.session.trans h.session, k.jobs.trans h.jobs, k.log.trans h.log⟩

namespace Leaving

variable {c : Crowd}

theorem ticks (h : c.Leaving) {clock : Clockwork}
    (t : Clockwork.Ticks (fun _ _ => False) c.clock clock) : { c with clock }.Leaving where
  owns := h.owns
  sound := t.sound h.sound
  runsOut := t.runsOut h.sound h.runsOut
  members := h.members

theorem finish (h : c.Leaving) {m : Member} (hm : m ∈ c.members) (r : Except Trouble Outcome) :
    (c.finish m.toTask r).Leaving ∧ c.Unnoticed (c.finish m.toTask r) := by
  obtain ⟨-, job, run⟩ := h.members m hm
  have jobs : Entrusted.finishAt c.jobs m.job = c.jobs := by simp [Entrusted.finishAt, job]
  have clock : (c.finish m.toTask r).clock = c.clock := by
    unfold Crowd.finish
    rw [run]
  refine ⟨⟨h.owns, clock ▸ h.sound, clock ▸ h.runsOut, fun n hn => ?_⟩, rfl, jobs, rfl⟩
  exact h.members n (mem_others.mp hn).1

theorem deliver (h : c.Leaving) {i : Nat} {call : RunnerCall TaskId} {clock : Clockwork}
    (taken : c.clock.take? i = some (call, clock)) :
    ({ c with clock }.deliver call).Leaving ∧ c.Unnoticed ({ c with clock }.deliver call) := by
  have ticked := h.ticks (Clockwork.ticks_take taken)
  obtain ⟨pre, n, post, split, -, -⟩ := Clockwork.take?_eq taken
  cases call with
  | begin run =>
    exact absurd rfl (h.runsOut.ready _ (split ▸ List.mem_append_right _ List.mem_cons_self) run)
  | stopped t =>
    have passed : { c with clock }.Leaving := by
      rwa [Runner.deliver, Clockwork.after_none] at ticked
    unfold Crowd.deliver
    dsimp only
    split
    · next task found =>
      obtain ⟨left, same⟩ := passed.finish (member?_eq_some found).1 (.ok .nothing)
      exact ⟨left, same.session, same.jobs, same.log⟩
    · exact ⟨passed, rfl, rfl, rfl⟩
  | wake id => exact ⟨ticked, rfl, rfl, rfl⟩
  | forgetHandle id => exact ⟨ticked, rfl, rfl, rfl⟩
  | forgetRun run => exact ⟨ticked, rfl, rfl, rfl⟩

theorem step (h : c.Leaving) {mv : Move} (own : mv.asks = false) :
    (c.step mv).Leaving ∧ c.Unnoticed (c.step mv) := by
  have stopping : ∀ {t : TaskId} {task : Task} {next : Routine.Next},
      c.member? t = some ⟨task, next⟩ → next = .stopRunner :=
    fun found => (h.members _ (member?_eq_some found).1).1
  cases mv with
  | start o => cases own
  | refresh => cases own
  | post channel v => cases own
  | host host => cases own
  | answer t now a =>
    unfold Crowd.step
    dsimp only
    split
    · next found => cases stopping found
    · exact ⟨h, rfl, rfl, rfl⟩
  | rest t =>
    unfold Crowd.step
    dsimp only
    split
    · next found => cases stopping found
    · exact ⟨h, rfl, rfl, rfl⟩
  | grant t =>
    unfold Crowd.step
    dsimp only
    split
    · next found => cases stopping found
    · exact ⟨h, rfl, rfl, rfl⟩
  | run id =>
    unfold Crowd.step
    dsimp only
    rw [h.owns]
    exact ⟨h, rfl, rfl, rfl⟩
  | deliver i =>
    unfold Crowd.step
    dsimp only
    split
    · exact ⟨h, rfl, rfl, rfl⟩
    · next taken => exact h.deliver taken
  | wake i turns => exact ⟨h.ticks (Clockwork.ticks_rouse i turns), rfl, rfl, rfl⟩

theorem run (h : c.Leaving) {moves : List Move} (own : ∀ mv ∈ moves, mv.asks = false) :
    (c.run moves).Leaving ∧ c.Unnoticed (c.run moves) := by
  induction moves generalizing c with
  | nil => exact ⟨h, rfl, rfl, rfl⟩
  | cons mv moves ih =>
    obtain ⟨first, rest⟩ := List.forall_mem_cons.mp own
    obtain ⟨still, unnoticed⟩ := h.step first
    obtain ⟨later, more⟩ := ih still rest
    exact ⟨later, unnoticed.trans more⟩

end Leaving

variable {config : Config} {mode : Value} {payload : String} {a : Answered}

/-- The exchange that a turn begins. -/
def asked? (e : Entry) : Option Exchange :=
  match e.result with
  | .ok (.ask x _) => some x
  | _ => none

/-- A fresh session that waits for the answer to an order. -/
def ordering (config : Config) (mode : Value) (payload : String) : Crowd :=
  let s := Session.start config true
  let next := Routine.Next.ask (modeExchange config payload) modeAsked
  { session := s.locked 0
    members := [⟨{ id := 0, operation := .selectMode mode }, next⟩]
    nextTask := 1
    log := [⟨0, .selectMode mode, .started (.selectMode mode), s, .ok next, s.locked 0⟩] }

theorem start_selectMode (good : Request.select mode = .ok payload) :
    (start config true).step (.start (.selectMode mode)) = ordering config mode payload := by
  have exec := Routine.exec_selectMode (s := .start config true) good 0 rfl rfl
  exact advance_of_exec (c := { start config true with nextTask := 1 })
    { id := 0, operation := .selectMode mode } (.started (.selectMode mode)) exec

/-- The session when the answer has been dealt with. -/
def ordered (config : Config) (a : Answered) : Session :=
  (((Session.start config true).locked 0).concluded (Order.verdict a) none).released

/-- The jobs that are cancelled with the session. -/
theorem upkeep_ordered (config : Config) (a : Answered) :
    (ordered config a).upkeep = if Order.took a then [1] else [] := by
  unfold ordered Order.verdict
  cases Order.took a with
  | false => exact List.mergeSort_nil
  | true => exact List.mergeSort_singleton 1

/-- The crowd when the answer has been dealt with. -/
def orderDone (config : Config) (mode : Value) (payload : String) (now : Moment) (a : Answered) : Crowd :=
  let c := ordering config mode payload
  let u := ordered config a
  let result := Outcome.tally (Order.verdict a)
  let e : Entry := ⟨0, .selectMode mode, .answered now modeAsked a, c.session, .ok (.done result), u⟩
  { { c with log := e :: c.log }.adopt u with
    members := []
    endings := [⟨0, .selectMode mode, .ok result⟩] }

theorem answer_ordering (ordinary : ∀ e, a = .error e → ¬ e.OfUser) (now : Moment) :
    (ordering config mode payload).step (.answer 0 now a) = orderDone config mode payload now a := by
  have exec := Routine.exec_modeAnswered ordinary now (ordering config mode payload).session
  have advanced := advance_of_exec (c := ordering config mode payload)
    { id := 0, operation := .selectMode mode } (.answered now modeAsked a) exec
  change Crowd.advance _ _ _ = _
  rw [advanced]
  unfold orderDone ordered Order.verdict
  cases Order.took a <;> rfl

/-- The poll that was to follow an order, cancelled before it has begun. -/
def droppedFollowUp : Entrusted where
  id := 1
  plan := .after (.ofMilliseconds Order.followUpDelay)
  job := .followUp 1 none
  late := false
  cancelled := true

/-- The runner when it is shut down with that poll on it. -/
def runnerLeft : Clockwork where
  runner :=
    { handles := [{ id := 1, plan := droppedFollowUp.plan, stopRequested := true }]
      tracked := [1]
      waiters := [⟨1, [1], []⟩] }
  ready := [(0, .wake 1), (0, .wake 1), (0, .wake 1)]

theorem runsOut_runnerLeft : runnerLeft.RunsOut where
  asked := List.forall_mem_singleton.mpr fun _ => rfl
  ready := by simp [runnerLeft]

/-- One who waits for the end of a disposal. -/
def disposing : Member := ⟨{ id := 1, operation := .dispose }, .stopRunner⟩

/-- Three calls to wake the handle, of which the first ends it, one to forget it, and one to him who
waits. -/
theorem members_runnerLeft (s : Session) (n : TaskId) (jobs : List Entrusted) (log : List Entry)
    (endings : List Ending) :
    (run { session := s, members := [disposing], nextTask := n, jobs, clock := runnerLeft, log, endings }
      (List.replicate 5 (.deliver 0))).members = [] := rfl

/-- A session that is asked for one order, and disposed of with the answer. -/
def orderAndDispose (mode : Value) (now : Moment) (a : Answered) : List Move :=
  [.start (.selectMode mode), .answer 0 now a, .start .dispose]

/-- What is left when the session has been disposed of. -/
structure OrderOver (config : Config) (payload : String) (a : Answered) (d : Crowd) : Prop where
  owns : d.session.ownsRunner = true
  runsOut : d.clock.RunsOut
  members : ∀ m ∈ d.members, m = disposing
  log : d.log.filterMap asked? = [modeExchange config payload]
  jobs : d.jobs = if Order.took a then [droppedFollowUp] else []
  ends : (d.run (List.replicate 5 (.deliver 0))).members = []

theorem dispose_orderDone (config : Config) (mode : Value) (payload : String) (now : Moment) (a : Answered) :
    OrderOver config payload a ((orderDone config mode payload now a).step (.start .dispose)) := by
  let c := orderDone config mode payload now a
  have upkeep : c.session.upkeep = if Order.took a then [1] else [] := upkeep_ordered config a
  have exec := Routine.exec_dispose c.session
  unfold Session.closed at exec
  rw [upkeep] at exec
  have advanced := advance_of_exec (c := { c with nextTask := 2 }) disposing.toTask (.started .dispose) exec
  rw [show (orderDone config mode payload now a).step (.start .dispose) = _ from advanced]
  unfold c orderDone ordered Order.verdict
  cases h : Order.took a with
  | false =>
    exact ⟨rfl, ⟨List.forall_mem_nil _, List.forall_mem_nil _⟩, List.forall_mem_nil _, rfl,
      by rw [h]; rfl, rfl⟩
  | true =>
    exact ⟨rfl, runsOut_runnerLeft, List.forall_mem_singleton.mpr rfl, rfl, by rw [h]; rfl,
      members_runnerLeft _ _ _ _ _⟩

theorem run_orderAndDispose (config : Config) (good : Request.select mode = .ok payload)
    (ordinary : ∀ e, a = .error e → ¬ e.OfUser) (now : Moment) :
    OrderOver config payload a ((start config true).run (orderAndDispose mode now a)) := by
  have past := dispose_orderDone config mode payload now a
  rw [← answer_ordering ordinary, ← start_selectMode good] at past
  exact past

theorem run_append (c : Crowd) (moves more : List Move) :
    c.run (moves ++ more) = (c.run moves).run more := List.foldl_append

/-- The order has been the only one to ask the device for anything, however long things go on. Its
poll has been cancelled before it could begin, and when the disposal is over nothing of it is left. -/
theorem orderAndDispose_asks_once (good : Request.select mode = .ok payload)
    (ordinary : ∀ e, a = .error e → ¬ e.OfUser) (now : Moment) {rest : List Move}
    (own : ∀ mv ∈ rest, mv.asks = false) :
    let c := (start config true).run (orderAndDispose mode now a ++ rest)
    c.log.filterMap asked? = [modeExchange config payload] ∧
    c.jobs = (if Order.took a then [droppedFollowUp] else []) ∧
    ((∃ y ∈ c.endings, y.operation = .dispose) → c.clock.runner.pending = 0) := by
  intro c
  have past := run_orderAndDispose config good ordinary now
  have sound := (Reachable.clocked ⟨_, _, _, rfl⟩ past.owns).sound
  have leaving : Leaving _ := ⟨past.owns, sound, past.runsOut, fun m hm => by
    rw [past.members m hm]
    exact ⟨rfl, rfl, rfl⟩⟩
  obtain ⟨left, same⟩ := leaving.run own
  rw [← run_append] at left same
  have jobs : c.jobs = if Order.took a then [droppedFollowUp] else [] := same.jobs.trans past.jobs
  refine ⟨(congrArg _ same.log).trans past.log, jobs, fun ended => ?_⟩
  refine (pending_eq_zero_iff left.owns).mpr fun id stands => ?_
  obtain ⟨j, hj, -, late⟩ := late_of_stands ⟨_, _, _, rfl⟩ left.owns ended stands
  rw [show j ∈ c.jobs ↔ _ by rw [jobs]] at hj
  split at hj
  · rw [List.mem_singleton.mp hj] at late
    cases late
  · cases hj

/-- The end of the session comes by itself. -/
theorem exists_end_orderAndDispose (good : Request.select mode = .ok payload)
    (ordinary : ∀ e, a = .error e → ¬ e.OfUser) (now : Moment) : ∃ rest,
    (∀ mv ∈ rest, mv.asks = false) ∧
      ((start config true).run (orderAndDispose mode now a ++ rest)).members = [] := by
  refine ⟨List.replicate 5 (.deliver 0), fun mv hmv => ?_, ?_⟩
  · rw [List.eq_of_mem_replicate hmv]
    rfl
  · rw [run_append]
    exact (run_orderAndDispose config good ordinary now).ends

end Crowd
end BatteryLink
