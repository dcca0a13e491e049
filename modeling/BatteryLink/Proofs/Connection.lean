import BatteryLink.Proofs.Config
import BatteryLink.Proofs.Cycle
import BatteryLink.Proofs.DeepReplies
import BatteryLink.Proofs.Gate
import BatteryLink.Proofs.Identity
import BatteryLink.Proofs.Jobs
/-!
The connection of a fresh session: the first probe and what comes of it. Whatever the device and the
network do, and whenever the session is disposed of, the connection ends with one outcome taken down,
and polling starts exactly if there is still a session to poll for. Only a reply that is nested too deep
to be read keeps it from starting.
-/
namespace BatteryLink

/-- Whatever fails in the surroundings fails in a way that is foreseen. -/
structure Surroundings.Foreseen (w : Surroundings) : Prop where
  addresses : ∀ f, w.addresses ≠ .error (.broken f)
  socket : ∀ f, w.socket ≠ .broken f
  bind : ∀ f, w.bind ≠ .broken f
  send : ∀ f, w.send ≠ .broken f
  arrival : ∀ delay f, w.arrival ≠ some (delay, .broken f)

namespace Exchange

variable {x : Exchange} {w : Surroundings}

theorem foreseen_tries (foreseen : w.Foreseen) {e : String → TransportError} {f : Fault} :
    ¬ x.Tries w e (.broken f) := by
  intro tries
  generalize hp : Permit.broken f = p at tries
  cases tries with
  | resolving h => exact foreseen.addresses f (hp ▸ h)
  | opening _ => exact foreseen.socket f hp.symm
  | binding _ _ => exact foreseen.bind f hp.symm
  | sending _ _ _ => exact foreseen.send f hp.symm

theorem foreseen_tells (foreseen : w.Foreseen) {f : Fault} : ¬ x.Tells w (.error (.fault f)) := by
  intro tells
  cases tells with
  | halted halts =>
    cases halts with
    | failed tries fails =>
      cases fails
      exact foreseen_tries foreseen tries
  | broken hears =>
    obtain ⟨-, delay, arrives, -⟩ := hears
    exact foreseen.arrival delay f arrives

end Exchange

/-- Answers that a first probe is prepared for: a reply that is read or refused, none at all, or a
refusal of the network. -/
inductive Routine.Usual : Answered → Prop
  | replied {reply : Option Octets} : (∀ octets ∈ reply, Poll.Readable octets) → Usual (.ok reply)
  | refused (e : TransportError) : Usual (.error (.refused e))

/-- An answer with octets that cannot be read, and the fault that comes of the attempt. -/
def Routine.Baffles (a : Answered) (f : Fault) : Prop :=
  ∃ octets, a = .ok (some octets) ∧ Reply.decode octets = .error (.fault f)

namespace Exchange

variable {x : Exchange} {w : Surroundings}

theorem tells_of_run (kept : ¬ x.Lost w) : x.Tells w (x.run w).answered :=
  (((x.answered_iff w _).mp rfl).resolve_left fun lost => kept lost.1).2

/-- A reply fits into a datagram. -/
theorem short_answered (kept : ¬ x.Lost w) {octets : Octets} (h : (x.run w).answered = .ok (some octets)) :
    octets.length ≤ Reading.maxIntDigits := by
  have tells := h ▸ tells_of_run kept
  cases tells with
  | reply hears => exact (List.length_take_le _ _).trans (by decide)

/-- In foreseen surroundings an exchange ends with a reply, with none, or with a refusal. -/
theorem usual_answered (kept : ¬ x.Lost w) (foreseen : w.Foreseen)
    (readable : ∀ f, ¬ Routine.Baffles (x.run w).answered f) : Routine.Usual (x.run w).answered := by
  have tells := tells_of_run kept
  have short : ∀ octets, (x.run w).answered = .ok (some octets) → octets.length ≤ _ :=
    fun _ => short_answered kept
  generalize (x.run w).answered = a at tells short readable
  rcases a with (e | f) | (- | octets)
  · exact .refused e
  · exact absurd tells (foreseen_tells foreseen)
  · exact .replied nofun
  · refine .replied fun octets hx => ?_
    cases hx
    exact ⟨short octets rfl, fun f hf => readable f ⟨octets, rfl, hf⟩⟩

/-- The device is reached exactly if a reply with something in it arrives in time. -/
theorem reached_iff (kept : ¬ x.Lost w) : Poll.reached (x.run w).answered = true ↔
    ∃ octets, octets ≠ [] ∧ x.Hears w (.reply octets) := by
  constructor
  · have tells := tells_of_run kept
    generalize (x.run w).answered = a at tells
    intro reached
    rcases a with e | (- | octets)
    · cases reached
    · cases reached
    · cases tells with
      | @reply octets hears =>
        refine ⟨octets, ?_, hears⟩
        rintro rfl
        cases reached
  · rintro ⟨octets, filled, hears⟩
    rw [answered_of_hears kept hears]
    cases octets with
    | nil => exact absurd rfl filled
    | cons o os => rfl

end Exchange

namespace Session

variable (s : Session) (identity : Option Identity) (reachable : Bool)

/-- The session after the answer to its first probe: one outcome is taken down, and polling starts. -/
def connected : Session := ({ s with identity }.recorded reachable).polling

/-- What the host application is told of an outcome: the status that it leads to, if that is another
one and the session has not been disposed of. -/
theorem statuses_recorded : ∃ news : List Notice,
    s.recorded reachable = { s with health := s.health.record reachable, outbox := s.outbox ++ news } ∧
    news.filter Notice.isChore = [] ∧
    statusesIn news = if s.disposed ∨ (s.health.record reachable).status = s.health.status then []
      else [(s.health.record reachable).status] := by
  unfold recorded told
  dsimp only
  split
  · next same =>
    have kept := Health.status_of_changed_eq_none same
    exact ⟨[], by simp, rfl, by rw [if_pos (.inr kept.symm)]; rfl⟩
  · next change hc =>
    obtain ⟨differ, rfl⟩ := Health.changed_eq_some.mp hc
    split
    · next closed => exact ⟨[], by simp, rfl, by rw [if_pos (.inl closed)]; rfl⟩
    · next live =>
      refine ⟨[.reported _ _], rfl, rfl, ?_⟩
      have news : ¬ (s.disposed = true ∨ (s.health.record reachable).status = s.health.status) :=
        not_or.mpr ⟨live, fun same => differ same.symm⟩
      rw [if_neg news]
      rfl

theorem recorded_identity :
    { s with identity }.recorded reachable = { s.recorded reachable with identity } := by
  unfold recorded told
  dsimp only
  split
  · rfl
  · split <;> rfl

theorem outbox_polling : s.polling.outbox = s.outbox ++ if s.disposed then [] else
    [.scheduled s.nextJob (.every (.whole s.config.refreshInterval)) .poll] := by
  unfold polling
  split
  · rw [List.append_nil]
  · rfl

theorem disposed_connected : (s.connected identity reachable).disposed = s.disposed := by
  obtain ⟨news, recorded, -⟩ := { s with identity }.statuses_recorded reachable
  unfold connected polling
  rw [recorded]
  split <;> rfl

theorem health_connected : (s.connected identity reachable).health = s.health.record reachable := by
  obtain ⟨news, recorded, -⟩ := { s with identity }.statuses_recorded reachable
  unfold connected polling
  rw [recorded]
  split <;> rfl

/-- What is said at the end of a connection: the status if it changes, and the recurring poll. -/
theorem outbox_connected : ∃ news : List Notice,
    (s.connected identity reachable).outbox = s.outbox ++ news ++ (if s.disposed then [] else
      [.scheduled s.nextJob (.every (.whole s.config.refreshInterval)) .poll]) ∧
    news.filter Notice.isChore = [] ∧
    statusesIn news = if s.disposed ∨ (s.health.record reachable).status = s.health.status then []
      else [(s.health.record reachable).status] := by
  obtain ⟨news, recorded, quiet, statuses⟩ := { s with identity }.statuses_recorded reachable
  refine ⟨news, ?_, quiet, statuses⟩
  unfold connected
  rw [outbox_polling, recorded]

end Session

namespace Routine

variable {s : Session}

/-- What the answer to a probe tells of the device. -/
def learned : Answered → Option Identity
  | .ok reply => Poll.learned reply
  | .error _ => none

/-- The answer to a first probe ends the connection. -/
theorem exec_firstAnswer (quiet : s.Quiet) {a : Answered} (usual : Usual a) : ∃ identity,
    (firstAnswer a).exec s = (.ok (.done .nothing), s.connected identity (Poll.reached a)) := by
  refine ⟨(learned a).or (s.recorded (Poll.reached a)).identity, ?_⟩
  rw [Session.connected, Session.recorded_identity]
  cases usual with
  | @replied reply readable =>
    change (Poll.probed reply >>= fun _ => startPolling).exec s = _
    rw [Turn.exec_bind, Poll.exec_probed_quiet quiet reply readable]
    exact exec_startPolling _
  | refused e =>
    change (Turn.record false >>= fun _ => startPolling).exec s = _
    rw [Turn.exec_bind, Poll.exec_record_quiet quiet]
    exact exec_startPolling _

/-- Octets that cannot be read are a success, but then the connection fails and nothing is polled. -/
theorem exec_firstAnswer_baffled (quiet : s.Quiet) {a : Answered} {f : Fault} (baffles : Baffles a f) :
    (firstAnswer a).exec s = (.error (.fault f), s.recorded true) := by
  obtain ⟨octets, rfl, hf⟩ := baffles
  change (Poll.probed (some octets) >>= fun _ => startPolling).exec s = _
  rw [Turn.exec_bind, Poll.exec_probed_fault quiet hf]

theorem Baffles.reached {a : Answered} {f : Fault} (h : Baffles a f) : Poll.reached a = true := by
  obtain ⟨octets, rfl, hf⟩ := h
  cases octets with
  | nil => exact absurd hf ((Poll.readable_of_shallow (by decide) (by decide +kernel)).read f)
  | cons o os => rfl

end Routine

namespace Crowd

open Routine (Cause)

variable {c : Crowd} {config : Config} {ownsRunner : Bool}

theorem advance_of_exec (t : Task) (cause : Cause) {r : Except Trouble Routine.Next} {u : Session}
    (h : (cause.turn t.id).exec c.session = (r, u)) : c.advance t cause =
      ({ c with log := ⟨t.id, t.operation, cause, c.session, r, u⟩ :: c.log }.adopt u).goOn t r := by
  unfold advance entry
  rw [h]

/-- The exchange of the first probe. -/
def firstExchange (config : Config) : Exchange :=
  ⟨config.host, config.port, Request.discoverText, config.localPort, Poll.firstTimeout⟩

def connection : Task := { id := 0, operation := .connect }

/-- Moves that ask nothing of a session but to be disposed of, while its first task is not answered. -/
inductive Aside : Move → Prop
  | dispose : Aside (.start .dispose)
  | answer {t : TaskId} (now : Moment) (a : Answered) : t ≠ 0 → Aside (.answer t now a)
  | rest (t : TaskId) : Aside (.rest t)
  | grant (t : TaskId) : Aside (.grant t)
  | run (id : JobId) : Aside (.run id)
  | deliver (i : Nat) : Aside (.deliver i)
  | wake (i turns : Nat) : Aside (.wake i turns)

/-- A fresh session that waits for the answer to its first probe, and has perhaps been disposed of. -/
structure Connecting (config : Config) (ownsRunner : Bool) (c : Crowd) : Prop where
  orderly : c.Orderly
  waits : ⟨connection, .ask (firstExchange config) .firstProbe⟩ ∈ c.members
  others : ∀ m ∈ c.members, m.id ≠ 0 → m.waits = .stopRunner
  jobs : c.jobs = []
  session : c.session = { Session.start config ownsRunner with disposed := c.session.disposed }
  heard : c.heard = [.reported .unknown none]

theorem connecting_start (config : Config) (ownsRunner : Bool) :
    Connecting config ownsRunner ((start config ownsRunner).step (.start .connect)) where
  orderly := ((Reachable.start config ownsRunner).step _).orderly
  waits := List.mem_singleton_self _
  others := List.forall_mem_singleton.mpr fun other => absurd rfl other
  jobs := rfl
  session := rfl
  heard := rfl

namespace Connecting

variable {d : Crowd} (h : Connecting config ownsRunner c)
include h

/-- Nobody waits for anything but the answer to the first probe and the end of the runner. -/
theorem waits_eq {m : Member} (hm : m ∈ c.members) :
    m.waits = .ask (firstExchange config) .firstProbe ∨ m.waits = .stopRunner := by
  by_cases first : m.id = 0
  · rw [List.inj_on_of_nodup_map h.orderly.nodup hm h.waits first]
    exact .inl rfl
  · exact .inr (h.others m hm first)

theorem job?_eq (id : JobId) : c.job? id = none := by
  unfold job?
  rw [h.jobs]
  rfl

/-- What only the runner notices is no matter to a session without jobs. -/
theorem unnoticed (orderly : d.Orderly) (stays : ∀ m ∈ c.members, m.waits ≠ .stopRunner → m ∈ d.members)
    (old : ∀ m ∈ d.members, m ∈ c.members) (jobs : d.jobs = c.jobs) (session : d.session = c.session)
    (log : d.log = c.log) : Connecting config ownsRunner d where
  orderly := orderly
  waits := stays _ h.waits nofun
  others := fun m hm other => h.others m (old m hm) other
  jobs := jobs.trans h.jobs
  session := by rw [session]; exact h.session
  heard := (heard_same log).trans h.heard

theorem begin_eq (id : JobId) (run : Option RunId) : c.begin id run = c := by
  unfold begin
  rw [h.job?_eq]

theorem with_clock (clock : Clockwork) : Connecting config ownsRunner { c with clock } :=
  h.unnoticed (h.orderly.with_jobs c.jobs clock) (fun _ hm _ => hm) (fun _ hm => hm) rfl rfl rfl

theorem finish_stopped {m : Member} (hm : m ∈ c.members) (stopped : m.waits = .stopRunner) :
    Connecting config ownsRunner (c.finish m.toTask (.ok .nothing)) := by
  refine h.unnoticed (finish_orderly h.orderly hm stopped) (fun n hn waits => ?_)
    (fun n hn => (mem_others.mp hn).1) ?_ rfl rfl
  · refine mem_others.mpr ⟨hn, fun same => waits ?_⟩
    rw [List.inj_on_of_nodup_map h.orderly.nodup hn hm same]
    exact stopped
  · change Entrusted.finishAt c.jobs m.job = c.jobs
    rw [h.jobs]
    rfl

theorem deliver (clock : Clockwork) (call : RunnerCall TaskId) :
    Connecting config ownsRunner ({ c with clock }.deliver call) ∧
      ({ c with clock }.deliver call).session = c.session := by
  have ticked := h.with_clock clock
  unfold Crowd.deliver
  split
  · split
    · exact ⟨ticked, rfl⟩
    · rw [ticked.begin_eq]
      exact ⟨ticked, rfl⟩
  · split
    · next task ht =>
      obtain ⟨hm, -⟩ := member?_eq_some ht
      exact ⟨ticked.finish_stopped hm rfl, rfl⟩
    · exact ⟨ticked, rfl⟩
  · exact ⟨h.with_clock _, rfl⟩

theorem exec_dispose : Routine.dispose.exec c.session =
    (.ok (if c.session.ownsRunner then .stopRunner else .done .nothing),
      { c.session with disposed := true }) := by
  have closed : c.session.closed = { c.session with disposed := true } := by
    rw [h.session]
    simp [Session.closed, Session.upkeep, Session.start]
  rw [Routine.exec_dispose, closed]

/-- A disposal says nothing, and there is nothing yet that it could cancel. -/
theorem dispose : Connecting config ownsRunner (c.step (.start .dispose)) ∧
    (c.step (.start .dispose)).session.disposed = true := by
  have orderly := moved_orderly h.orderly (step_moved c (.start .dispose))
  let t : Task := { id := c.nextTask, operation := .dispose }
  let u : Session := { c.session with disposed := true }
  let r : Except Trouble Routine.Next :=
    .ok (if c.session.ownsRunner then .stopRunner else .done .nothing)
  let e : Entry := ⟨t.id, t.operation, .started .dispose, c.session, r, u⟩
  let told : Crowd := { c with nextTask := c.nextTask + 1, log := e :: c.log }.adopt u
  have stepped : c.step (.start .dispose) = told.goOn t r :=
    advance_of_exec (c := { c with nextTask := c.nextTask + 1 }) t _ h.exec_dispose
  have sound : e.Sound := ⟨h.exec_dispose, h.orderly.swept⟩
  have heard : ∀ d : Crowd, d.log = e :: c.log → d.heard = [.reported .unknown none] := by
    intro d log
    rw [heard_cons log, Entry.heard_disposal sound rfl, List.append_nil, h.heard]
  have session : told.session = { Session.start config ownsRunner with disposed := true } := by
    change { c.session with disposed := true, outbox := [] } = _
    rw [h.session]
    rfl
  have jobs : told.jobs = [] := by
    change c.session.outbox.foldl _ c.jobs = []
    rw [h.orderly.swept]
    exact h.jobs
  have waits : ⟨connection, .ask (firstExchange config) .firstProbe⟩ ∈ told.others t.id :=
    mem_others.mpr ⟨h.waits, Nat.ne_of_lt ((h.orderly.alive _ h.waits).2.fresh h.orderly)⟩
  have others : ∀ m ∈ told.others t.id, m.id ≠ 0 → m.waits = .stopRunner :=
    fun m hm => h.others m (mem_others.mp hm).1
  rw [stepped] at orderly ⊢
  obtain ⟨next, clock, hr, going, goes⟩ | ⟨out, clock, -, goes⟩ := goOn_eq told t r
  · have stops : next = .stopRunner := by
      have same : (if c.session.ownsRunner then .stopRunner else .done .nothing) = next :=
        Except.ok.inj hr
      split at same
      · exact same.symm
      · exact absurd same.symm (going .nothing)
    rw [goes] at orderly ⊢
    exact ⟨⟨orderly, List.mem_cons_of_mem _ waits, List.forall_mem_cons.mpr ⟨fun _ => stops, others⟩,
      jobs, session, heard _ rfl⟩, rfl⟩
  · have finished : Entrusted.finishAt told.jobs t.job = [] := by rw [jobs]; rfl
    rw [goes] at orderly ⊢
    exact ⟨⟨orderly, waits, others, finished, session, heard _ rfl⟩, rfl⟩

/-- Any other move goes unnoticed. -/
theorem step_other {mv : Move} (aside : Aside mv) (other : mv ≠ .start .dispose) :
    Connecting config ownsRunner (c.step mv) ∧ (c.step mv).session = c.session := by
  cases aside with
  | dispose => exact absurd rfl other
  | answer now a late =>
    unfold Crowd.step
    dsimp only
    split
    · next task x k ht =>
      obtain ⟨hm, rfl⟩ := member?_eq_some ht
      cases h.others _ hm late
    · exact ⟨h, rfl⟩
  | rest t =>
    unfold Crowd.step
    dsimp only
    split
    · next task w ht => rcases h.waits_eq (member?_eq_some ht).1 with same | same <;> cases same
    · exact ⟨h, rfl⟩
  | grant t =>
    unfold Crowd.step
    dsimp only
    split
    · next task k ht => rcases h.waits_eq (member?_eq_some ht).1 with same | same <;> cases same
    · exact ⟨h, rfl⟩
  | run id =>
    unfold Crowd.step
    dsimp only
    split
    · next j _ known => cases (h.job?_eq id).symm.trans known
    · exact ⟨h, rfl⟩
  | deliver i =>
    unfold Crowd.step
    dsimp only
    split
    · exact ⟨h, rfl⟩
    · exact h.deliver _ _
  | wake i turns => exact ⟨h.with_clock _, rfl⟩

theorem step {mv : Move} (aside : Aside mv) : Connecting config ownsRunner (c.step mv) ∧
    ((c.step mv).session.disposed = true ↔ mv = .start .dispose ∨ c.session.disposed = true) := by
  by_cases dispose : mv = .start .dispose
  · subst dispose
    exact ⟨h.dispose.1, iff_of_true h.dispose.2 (.inl rfl)⟩
  · obtain ⟨still, same⟩ := h.step_other aside dispose
    exact ⟨still, by rw [same, or_iff_right dispose]⟩

/-- The connection goes on whatever happens in between, and the session is disposed of if it was
asked to be. -/
theorem run {moves : List Move} (aside : ∀ mv ∈ moves, Aside mv) :
    Connecting config ownsRunner (c.run moves) ∧
    ((c.run moves).session.disposed = true ↔
      .start .dispose ∈ moves ∨ c.session.disposed = true) := by
  induction moves generalizing c with
  | nil => exact ⟨h, by simp [Crowd.run]⟩
  | cons mv moves ih =>
    obtain ⟨first, rest⟩ := List.forall_mem_cons.mp aside
    obtain ⟨still, disposed⟩ := h.step first
    obtain ⟨later, disposed'⟩ := ih still rest
    refine ⟨later, disposed'.trans ?_⟩
    rw [disposed, List.mem_cons, or_assoc, or_left_comm, eq_comm]

/-- The connection is over with its answer, and `r` is what comes of it. -/
theorem answer_eq (now : Moment) {a : Answered} {r : Except Trouble Outcome} {u : Session}
    (exec : (Routine.firstAnswer a).exec c.session = (r.map .done, u)) : ∃ e : Entry,
    e.before = c.session ∧ e.after = u ∧ c.step (.answer 0 now a) =
      ({ c with log := e :: c.log }.adopt u).finish connection r := by
  have member : c.member? 0 = some ⟨connection, .ask (firstExchange config) .firstProbe⟩ :=
    member?_of_mem h.orderly h.waits
  have stepped : c.step (.answer 0 now a) = c.advance connection (.answered now .firstProbe a) := by
    unfold Crowd.step
    dsimp only
    rw [member]
  refine ⟨⟨0, .connect, .answered now .firstProbe a, c.session, r.map .done, u⟩, rfl, rfl, ?_⟩
  rw [stepped, advance_of_exec connection (.answered now .firstProbe a) exec]
  cases r <;> rfl

/-- What has become of the session, of its jobs and of what the host application has heard. The turn
has said some `news`, and then perhaps that something is to be polled. -/
theorem answer_told (now : Moment) {a : Answered} {r : Except Trouble Outcome} {u : Session}
    (exec : (Routine.firstAnswer a).exec c.session = (r.map .done, u)) {news polls : List Notice}
    (outbox : u.outbox = news ++ polls) (quiet : news.filter Notice.isChore = [])
    (silent : statusesIn polls = []) (disposed : u.disposed = c.session.disposed) :
    let d := c.step (.answer 0 now a)
    ⟨0, .connect, r⟩ ∈ d.endings ∧ d.session = { u with outbox := [] } ∧
    d.jobs = polls.foldl (Entrusted.heed c.session.disposed) [] ∧
    statusesIn d.heard = .unknown :: statusesIn news := by
  obtain ⟨e, before, rfl, stepped⟩ := h.answer_eq now exec
  dsimp only
  rw [stepped]
  refine ⟨List.mem_cons_self, rfl, ?_, ?_⟩
  · have heeded : news.foldl (Entrusted.heed c.session.disposed) [] = [] := by
      rw [Entrusted.foldl_heed_chores, quiet]
      rfl
    change Entrusted.finishAt (e.after.outbox.foldl (Entrusted.heed e.after.disposed) c.jobs) none = _
    rw [outbox, disposed, h.jobs, List.foldl_append, heeded]
    simp [Entrusted.finishAt]
  · have said : statusesIn e.heard = statusesIn news := by
      unfold Entry.heard
      rw [statusesIn_filter, outbox, statusesIn_append, silent, List.append_nil]
    change statusesIn (Crowd.heard _) = _
    rw [heard_cons rfl, statusesIn_append, h.heard, said]
    rfl

theorem fresh : c.session.nextJob = 1 ∧ c.session.config = config ∧
    c.session.health = .initial config.failureThreshold := by
  rw [h.session]
  exact ⟨rfl, rfl, rfl⟩

/-- An answer that is usual starts polling, unless the session has been disposed of. -/
theorem answer (now : Moment) {a : Answered} (usual : Routine.Usual a) :
    let d := c.step (.answer 0 now a)
    ⟨0, .connect, .ok .nothing⟩ ∈ d.endings ∧
    (∃ identity, d.session = { c.session.connected identity (Poll.reached a) with outbox := [] }) ∧
    d.jobs = (if c.session.disposed then [] else
      [{ id := 1, plan := .every (.whole config.refreshInterval), job := .poll, late := false }]) ∧
    d.session.health = (Health.initial config.failureThreshold).record (Poll.reached a) ∧
    statusesIn d.heard = .unknown :: if c.session.disposed ∨ d.session.health.status = .unknown then []
      else [d.session.health.status] := by
  have quiet : c.session.Quiet := .inr (by rw [h.session]; rfl)
  obtain ⟨identity, exec⟩ := Routine.exec_firstAnswer quiet usual
  obtain ⟨news, outbox, chores, statuses⟩ := c.session.outbox_connected identity (Poll.reached a)
  obtain ⟨nextJob, own, healthy⟩ := h.fresh
  rw [h.orderly.swept, nextJob, own, List.nil_append] at outbox
  have silent : statusesIn (if c.session.disposed then [] else
      [.scheduled 1 (.every (.whole config.refreshInterval)) .poll]) = [] := by
    cases c.session.disposed <;> rfl
  obtain ⟨ended, session, jobs, heard⟩ := h.answer_told now (r := .ok .nothing) exec outbox chores silent
    (c.session.disposed_connected identity _)
  have health : (c.step (.answer 0 now a)).session.health =
      (Health.initial config.failureThreshold).record (Poll.reached a) := by
    rw [session, ← healthy]
    exact c.session.health_connected identity _
  refine ⟨ended, ⟨identity, session⟩, ?_, health, ?_⟩
  · rw [jobs]
    cases c.session.disposed <;> rfl
  · rw [heard, statuses, health, healthy]
    rfl

/-- Octets that cannot be read fail the connection after the success is taken down, and then nothing is
ever polled. -/
theorem answer_baffled (now : Moment) {a : Answered} {f : Fault} (baffles : Routine.Baffles a f) :
    let d := c.step (.answer 0 now a)
    ⟨0, .connect, .error (.fault f)⟩ ∈ d.endings ∧
    d.session = { c.session.recorded true with outbox := [] } ∧ d.jobs = [] ∧
    d.session.health = (Health.initial config.failureThreshold).record true ∧
    statusesIn d.heard = .unknown :: if c.session.disposed ∨ d.session.health.status = .unknown then []
      else [d.session.health.status] := by
  have quiet : c.session.Quiet := .inr (by rw [h.session]; rfl)
  have exec := Routine.exec_firstAnswer_baffled quiet baffles
  obtain ⟨news, recorded, chores, statuses⟩ := c.session.statuses_recorded true
  obtain ⟨-, -, healthy⟩ := h.fresh
  have outbox : (c.session.recorded true).outbox = news ++ [] := by
    rw [recorded, h.orderly.swept, List.append_nil]
    rfl
  obtain ⟨ended, session, jobs, heard⟩ := h.answer_told now (r := .error (.fault f)) exec outbox chores
    rfl (by rw [recorded])
  have health : (c.step (.answer 0 now a)).session.health =
      (Health.initial config.failureThreshold).record true := by
    rw [session, recorded, ← healthy]
  refine ⟨ended, session, jobs, health, ?_⟩
  rw [heard, statuses, health, healthy]
  rfl

end Connecting

/-- A fresh session connects in one way or the other whatever the device and the network do in ways
that are foreseen, and whenever it is disposed of while it waits. It waits for one answer, and one
outcome is taken down: the device was reached if a reply with something in it came within 5000
milliseconds. The host application hears that nothing is known of the device, and then of one change
at most. The connection ends without trouble, and one recurring poll is scheduled with the interval of
the configuration, which a scheduler takes, and none if the session has been disposed of. That is so
for every reply that can be read, and so for every one that is not nested too deep. Any other fails the
connection after its success has been taken down, and nothing is ever polled. -/
theorem connects_once {entries : List (Value × Value)} (mapping : Value.IsMapping entries)
    (accepted : Config.ofEntries entries = .ok config) (ownsRunner : Bool) (now : Moment)
    {w : Surroundings} (foreseen : w.Foreseen) {between : List Move}
    (aside : ∀ mv ∈ between, Aside mv) :
    let x : Exchange := ⟨config.host, config.port, Request.discoverText, config.localPort, 5000⟩
    let c := (start config ownsRunner).run (.start .connect :: between)
    let d := c.step (.answer 0 now (x.run w).answered)
    ⟨{ id := 0, operation := .connect }, .ask x .firstProbe⟩ ∈ c.members ∧
    (c.session.disposed = true ↔ .start .dispose ∈ between) ∧
    (∃ reachable : Bool,
      (reachable = true ↔ ∃ octets, octets ≠ [] ∧ x.Hears w (.reply octets)) ∧
      d.session.health = (Health.initial config.failureThreshold).record reachable ∧
      ((∀ f, ¬ Routine.Baffles (x.run w).answered f) → ∃ identity, d.session =
        { ({ c.session with identity }.recorded reachable).polling with outbox := [] })) ∧
    statusesIn d.heard = .unknown :: (if c.session.disposed ∨ d.session.health.status = .unknown then []
      else [d.session.health.status]) ∧
    1 ≤ config.refreshInterval ∧
    Plan.everySeconds (.int config.refreshInterval) = .ok (.every (.whole config.refreshInterval)) ∧
    ((∀ f, ¬ Routine.Baffles (x.run w).answered f) →
      ⟨0, .connect, .ok .nothing⟩ ∈ d.endings ∧ d.jobs = if c.session.disposed then [] else
        [{ id := 1, plan := .every (.whole config.refreshInterval), job := .poll, late := false }]) ∧
    ∀ f, Routine.Baffles (x.run w).answered f →
      ⟨0, .connect, .error (.fault f)⟩ ∈ d.endings ∧ d.jobs = [] ∧ f.name = "RecursionError" ∧
      ∃ octets, (x.run w).answered = .ok (some octets) ∧ Value.maxDepth < Json.levels octets := by
  intro x c d
  have sound := ((Config.ofEntries_eq_ok mapping).mp accepted).sound
  have brief : ¬ (Exchange.tooLong : Int) ≤ 5000 := by decide +kernel
  have kept : ¬ x.Lost w := fun lost => brief lost.1
  obtain ⟨connecting, disposed⟩ :
      Connecting config ownsRunner c ∧ (c.session.disposed = true ↔ _) :=
    (connecting_start config ownsRunner).run aside
  refine ⟨connecting.waits, disposed.trans (or_iff_left Bool.false_ne_true), ?_⟩
  by_cases readable : ∀ f, ¬ Routine.Baffles (x.run w).answered f
  · have usual := Exchange.usual_answered kept foreseen readable
    obtain ⟨ended, ⟨identity, session⟩, jobs, health, heard⟩ := connecting.answer now usual
    exact ⟨⟨_, Exchange.reached_iff kept, health, fun _ => ⟨identity, session⟩⟩, heard,
      sound.refreshInterval, sound.everySeconds, fun _ => ⟨ended, jobs⟩,
      fun f baffles => absurd baffles (readable f)⟩
  · obtain ⟨f, baffles⟩ := not_forall_not.mp readable
    obtain ⟨-, -, -, health, heard⟩ := connecting.answer_baffled now baffles
    rw [← baffles.reached] at health
    refine ⟨⟨_, Exchange.reached_iff kept, health, fun hf => absurd hf readable⟩, heard,
      sound.refreshInterval, sound.everySeconds, fun hf => absurd hf readable, fun f baffles => ?_⟩
    obtain ⟨ended, -, jobs, -⟩ := connecting.answer_baffled now baffles
    obtain ⟨octets, answered, hf⟩ := baffles
    obtain ⟨deep, doing, rfl⟩ := Reply.decode_fault (Exchange.short_answered kept answered) hf
    exact ⟨ended, jobs, rfl, octets, answered, deep⟩

/-- A device that tells who it is, but nearly too late. -/
def drowsy : Surroundings where
  addresses := .ok ["192.168.1.7"]
  arrival := some (4999, .reply "\x7b\"result\":\x7b\"device\":\"VenusE\"\x7d\x7d".toUTF8.toList)

/-- The session is disposed of while the device makes up its mind. The device has been reached, but
nobody polls it and the host application does not hear of it. -/
theorem connects_once_drowsy :
    let entries : List (Value × Value) := [(.text "host", .text "battery")]
    let config : Config := { host := "battery" }
    let between : List Move := [.deliver 0, .start .dispose, .wake 0 0, .start .dispose]
    let x : Exchange := ⟨"battery", 30000, Request.discoverText, 0, 5000⟩
    let c := (start config true).run (.start .connect :: between)
    let d := c.step (.answer 0 ⟨0⟩ (x.run drowsy).answered)
    Value.IsMapping entries ∧ Config.ofEntries entries = .ok config ∧ drowsy.Foreseen ∧
    (∀ mv ∈ between, Aside mv) ∧
    ⟨0, .connect, .ok .nothing⟩ ∈ d.endings ∧ d.session.health.status = .online ∧ d.jobs = [] ∧
    statusesIn d.heard = [.unknown] := by
  intro entries config between x c d
  have mapping : Value.IsMapping entries :=
    ⟨List.forall_mem_singleton.mpr nofun, List.nodup_singleton _⟩
  have accepted : Config.ofEntries entries = .ok config := toOption_eq_some.mp (by decide +kernel)
  have foreseen : drowsy.Foreseen := ⟨nofun, nofun, nofun, nofun, nofun⟩
  have aside : ∀ mv ∈ between, Aside mv := by
    simp only [between, List.forall_mem_cons]
    exact ⟨.deliver 0, .dispose, .wake 0 0, .dispose, List.forall_mem_nil _⟩
  obtain ⟨-, disposed, ⟨reachable, reached, health, -⟩, heard, -, -, fine, -⟩ :=
    connects_once mapping accepted true ⟨0⟩ foreseen aside
  have read : ((x.run drowsy).answered.toOption.join.bind fun octets =>
      (Reply.decode octets).toOption).isSome = true := by decide +kernel
  have readable : ∀ f, ¬ Routine.Baffles (x.run drowsy).answered f := by
    rintro f ⟨octets, answered, hf⟩
    rw [answered] at read
    change (Reply.decode octets).toOption.isSome = true at read
    rw [hf] at read
    cases read
  obtain ⟨ended, jobs⟩ := fine readable
  have closed := disposed.mpr (by simp [between])
  have heard_in_time : ∃ octets, octets ≠ [] ∧ x.Hears drowsy (.reply octets) :=
    ⟨_, by decide +kernel, ⟨"192.168.1.7", ⟨[], rfl⟩, rfl, rfl, rfl⟩, 4999, rfl, by decide⟩
  obtain rfl := reached.mpr heard_in_time
  rw [if_pos closed] at jobs
  rw [if_pos (.inl closed)] at heard
  exact ⟨mapping, accepted, foreseen, aside, ended, by rw [health]; rfl, jobs, heard⟩

/-- A device that answers with nothing but opening brackets. -/
def bracketed (n : Nat) : Surroundings where
  addresses := .ok ["10.0.0.2"]
  arrival := some (1, .reply (List.replicate n 91))

theorem foreseen_bracketed (n : Nat) : (bracketed n).Foreseen := ⟨nofun, nofun, nofun, nofun, nofun⟩

/-- If they are more than there is room for and fit into a datagram, the first probe cannot read them. -/
theorem baffles_bracketed {x : Exchange} (brief : x.timeout = 5000) {n : Nat} (more : Value.maxDepth < n)
    (fits : n ≤ Exchange.bufferSize) : ∃ f, f.name = "RecursionError" ∧
      Routine.Baffles (x.run (bracketed n)).answered f := by
  have kept : ¬ x.Lost (bracketed n) := fun lost =>
    (by decide +kernel : ¬ (Exchange.tooLong : Int) ≤ 5000) (brief ▸ lost.1)
  have hears : x.Hears (bracketed n) (.reply (List.replicate n 91)) :=
    ⟨⟨"10.0.0.2", ⟨[], rfl⟩, rfl, rfl, rfl⟩, 1, rfl, by rw [brief]; decide⟩
  have answered : (x.run (bracketed n)).answered = .ok (some (List.replicate n 91)) := by
    rw [Exchange.answered_of_hears kept hears, Exchange.reception, List.take_replicate, Nat.min_eq_right fits]
  have fault : Reply.decode (List.replicate n 91) =
      .error (.fault (.tooDeep "decoding a JSON array from a unicode string")) := by
    rw [Reply.decode, Json.read_brackets more]
  exact ⟨_, rfl, _, answered, fault⟩

/-- The device has been reached and the session has not been disposed of, and still the connection fails
and nothing is scheduled that would ever poll the device. -/
theorem unpolled_of_brackets {n : Nat} (more : Value.maxDepth < n) (fits : n ≤ Exchange.bufferSize) :
    let x : Exchange := ⟨"10.0.0.2", 30000, Request.discoverText, 0, 5000⟩
    let c := (start { host := "10.0.0.2" } false).step (.start .connect)
    let d := c.step (.answer 0 ⟨0⟩ (x.run (bracketed n)).answered)
    (bracketed n).Foreseen ∧ ⟨{ id := 0, operation := .connect }, .ask x .firstProbe⟩ ∈ c.members ∧
    (∃ f, ⟨0, .connect, .error (.fault f)⟩ ∈ d.endings ∧ f.name = "RecursionError") ∧
    d.session.health.status = .online ∧ d.session.disposed = false ∧ d.jobs = [] := by
  intro x c d
  have connecting : Connecting { host := "10.0.0.2" } false c := connecting_start _ _
  obtain ⟨f, name, baffles⟩ := baffles_bracketed (x := x) rfl more fits
  obtain ⟨ended, session, jobs, health, -⟩ := connecting.answer_baffled ⟨0⟩ baffles
  refine ⟨foreseen_bracketed _, connecting.waits, ⟨f, ended, name⟩, ?_, ?_, jobs⟩
  · rw [health]
    rfl
  · rw [session]
    rfl

theorem unpolled_of_full_brackets :
    let x : Exchange := ⟨"10.0.0.2", 30000, Request.discoverText, 0, 5000⟩
    let c := (start { host := "10.0.0.2" } false).step (.start .connect)
    let d := c.step (.answer 0 ⟨0⟩ (x.run (bracketed 4096)).answered)
    (bracketed 4096).Foreseen ∧ ⟨{ id := 0, operation := .connect }, .ask x .firstProbe⟩ ∈ c.members ∧
    (∃ f, ⟨0, .connect, .error (.fault f)⟩ ∈ d.endings ∧ f.name = "RecursionError") ∧
    d.session.health.status = .online ∧ d.session.disposed = false ∧ d.jobs = [] :=
  unpolled_of_brackets (by decide) (by decide)

end Crowd
end BatteryLink
