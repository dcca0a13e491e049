import BatteryLink.Proofs.Exchange
import BatteryLink.Proofs.Outcomes
import BatteryLink.Session.Alone
/-!
A poll that nothing else comes in between of. What is sent, what is said to the host application and
what is taken down follows from the answers of the device, whatever they are.
-/
namespace BatteryLink

namespace Exchange

def payload? : NetworkAct → Option String
  | .send _ _ _ payload => some payload
  | _ => none

/-- The requests that were sent, of which an exchange has one at most. -/
def Trace.sent (t : Trace) : List String := (t.acts.map (·.2)).filterMap payload?

/-- The request has been sent, or there is a reason why it cannot be. -/
theorem dispatch_sends (x : Exchange) (w : Surroundings) :
    (x.dispatch w).1.filterMap payload? = [x.payload] ∧ (x.dispatch w).2 = .ok () ∨
    (x.dispatch w).1.filterMap payload? = [] ∧ ∃ t, (x.dispatch w).2 = .error t := by
  have dispatched := x.dispatches w
  generalize x.dispatch w = d at dispatched ⊢
  cases dispatched with
  | unopened _ => exact .inr ⟨rfl, _, rfl⟩
  | unsent _ _ => exact .inr ⟨rfl, _, rfl⟩
  | sent _ _ => exact .inl ⟨rfl, rfl⟩

/-- Without a request there is no answer. -/
theorem sent_run (x : Exchange) (w : Surroundings) :
    (x.run w).sent = [x.payload] ∨ (x.run w).sent = [] ∧ ∃ t, (x.run w).answered = .error t := by
  have timeless : ∀ acts : List NetworkAct, (acts.map (Prod.mk 0)).map (·.2) = acts := by simp
  unfold run Trace.sent
  rcases dispatch_sends x w with ⟨sent, ok⟩ | ⟨none, t, failed⟩
  · rcases h : x.dispatch w with ⟨acts, r⟩
    rw [h] at sent ok
    cases ok
    refine .inl ?_
    dsimp only
    rw [List.map_append, timeless, List.filterMap_append, sent]
    rfl
  · rcases h : x.dispatch w with ⟨acts, r⟩
    rw [h] at none failed
    cases failed
    refine .inr ⟨?_, t, rfl⟩
    dsimp only
    rw [timeless, none]

end Exchange

/-- Whatever else goes wrong in the surroundings, the user interrupts nothing. -/
structure Surroundings.Calm (w : Surroundings) : Prop where
  addresses : ∀ message, w.addresses ≠ .error (.broken (.interrupt message))
  socket : ∀ message, w.socket ≠ .broken (.interrupt message)
  bind : ∀ message, w.bind ≠ .broken (.interrupt message)
  send : ∀ message, w.send ≠ .broken (.interrupt message)
  arrival : ∀ delay message, w.arrival ≠ some (delay, .broken (.interrupt message))

namespace Exchange

/-- No step before the wait is interrupted. -/
theorem calm_tries {x : Exchange} {w : Surroundings} (calm : w.Calm) {e : String → TransportError}
    {message : String} : ¬ x.Tries w e (.broken (.interrupt message)) := by
  intro tries
  generalize hp : Permit.broken (.interrupt message) = p at tries
  cases tries with
  | resolving h => exact calm.addresses message (hp ▸ h)
  | opening _ => exact calm.socket message hp.symm
  | binding _ _ => exact calm.bind message hp.symm
  | sending _ _ _ => exact calm.send message hp.symm

theorem calm_halts {x : Exchange} {w : Surroundings} (calm : w.Calm) {t : Trouble}
    (h : x.Halts w t) : ¬ t.OfUser := by
  rintro ⟨message, rfl⟩
  cases h with
  | failed tries fails =>
    cases fails
    exact calm_tries calm tries

theorem calm_dispatch {x : Exchange} {w : Surroundings} (calm : w.Calm) {t : Trouble}
    (h : (x.dispatch w).2 = .error t) : ¬ t.OfUser := by
  have dispatched := x.dispatches w
  generalize x.dispatch w = d at dispatched h
  cases dispatched with
  | unopened stops =>
    cases h
    rcases stops with ⟨_, rfl⟩ | ⟨_, halts⟩
    · exact fun ⟨_, user⟩ => by cases user
    · exact calm_halts calm halts
  | unsent _ halts =>
    cases h
    exact calm_halts calm halts
  | sent _ _ => cases h

theorem calm_await {x : Exchange} {w : Surroundings} (calm : w.Calm) {t : Trouble}
    (h : (x.await w).2 = .error t) : ¬ t.OfUser := by
  rintro ⟨message, rfl⟩
  rcases ha : w.arrival with - | ⟨delay, a⟩ <;> rw [await, inTime?, ha] at h
  · cases h
  · dsimp only [Option.bind_some] at h
    split at h
    · cases a with
      | reply octets => cases h
      | timedOut => cases h
      | refused reason => cases h
      | broken f =>
        cases h
        exact calm.arrival delay message ha
    · cases h

theorem calm_run (x : Exchange) {w : Surroundings} (calm : w.Calm) (t : Trouble)
    (h : (x.run w).answered = .error t) : ¬ t.OfUser := by
  unfold run at h
  split at h
  · next acts u hd =>
    cases h
    exact calm_dispatch (x := x) calm (congrArg Prod.snd hd)
  · exact calm_await calm h

end Exchange

/-- One who performs exchanges with a device in the surroundings given for each of them, which end
at the given times; and keeps the traces. -/
def scripted (device : Nat → Surroundings) (clock : Nat → Moment) :
    Carrier (StateM (List Exchange.Trace)) where
  exchange x := do
    let traces ← get
    let trace := x.run (device traces.length)
    set (traces ++ [trace])
    return (clock traces.length, trace.answered)
  rest _ := pure ()

def Notice.publication? : Notice → Option (String × Published)
  | .published channel content => some (channel, content)
  | _ => none

namespace Session

def publications (s : Session) : List (String × Published) := s.outbox.filterMap Notice.publication?

/-- The session after values were published on channels. -/
def announce (s : Session) (us : List (String × Value)) : Session :=
  { s with outbox := s.outbox ++ us.map fun u => .published u.1 (.value u.2) }

/-- Sessions whose host application is told everything, and takes it. -/
structure Open (s : Session) : Prop where
  live : s.disposed = false
  host : s.host = {}

theorem publications_announce (s : Session) (us : List (String × Value)) :
    (s.announce us).publications = s.publications ++ us.map fun u => (u.1, .value u.2) := by
  unfold publications announce
  rw [List.filterMap_append, List.filterMap_map]
  exact congrArg _ (congrFun List.filterMap_eq_map' us)

/-- An outcome that is taken down may be news, but publishes nothing. -/
theorem recorded_eq (s : Session) (reachable : Bool) : ∃ news : List Notice,
    news.filterMap Notice.publication? = [] ∧
    s.recorded reachable = { s with health := s.health.record reachable, outbox := s.outbox ++ news } := by
  unfold recorded told
  dsimp only
  split
  · exact ⟨[], rfl, by simp⟩
  · split
    · exact ⟨[], rfl, by simp⟩
    · exact ⟨[_], rfl, rfl⟩

theorem health_recorded (s : Session) (reachable : Bool) :
    (s.recorded reachable).health = s.health.record reachable := by
  obtain ⟨news, -, recorded⟩ := s.recorded_eq reachable
  rw [recorded]

end Session

namespace Turn

variable {s : Session}

theorem exec_publish_open (h : s.Open) (online : s.health.isOnline = true) (channel : String)
    (content : Published) :
    (publish channel content).exec s = (.ok true, s.emit (.published channel content)) := by
  unfold publish
  simp [h.live, online, h.host, Host.refusal?, Session.emit]

theorem exec_record_open (h : s.Open) (reachable : Bool) :
    (record reachable).exec s = (.ok (), s.recorded reachable) := by
  obtain ⟨r, hr, foreign⟩ := exec_record reachable s
  cases r with
  | ok => exact hr
  | error e =>
    obtain ⟨message, -, refuses⟩ := foreign e rfl
    rw [h.host] at refuses
    rcases refuses with refuses | ⟨_, refuses⟩ <;> cases refuses

end Turn

namespace Poll

variable {s u : Session}

theorem exec_publishAll (h : u.Open) (online : u.health.isOnline = true) (us : List (String × Value)) :
    (publishAll us).exec u = (.ok (), u.announce us) := by
  induction us generalizing u with
  | nil => simp [publishAll, Session.announce]
  | cons p us ih =>
    unfold publishAll
    rw [Turn.exec_bind, Turn.exec_publish_open h online]
    dsimp only
    have still : (u.emit (.published p.1 (.value p.2))).Open := ⟨h.live, h.host⟩
    rw [ih still online]
    simp [Session.emit, Session.announce]

namespace Stage

def payload : Stage → String
  | probe => Request.discoverText
  | query m _ => Request.queryText m

/-- The exchange that a stage waits for. -/
def exchange (stage : Stage) (s : Session) : Exchange :=
  ⟨s.config.host, s.config.port, stage.payload, s.config.localPort, timeout⟩

/-- Whether a poll goes on after an answer. -/
def passes (stage : Stage) : Answered → Bool
  | .error _ => false
  | .ok reply => !stage.faults reply && (stage != probe || responds reply)

/-- The updates that the reply to a query gives. A probe gives none. -/
def updates (stage : Stage) : Answered → List (String × Value)
  | .ok (some octets) =>
    match stage, Reply.decode octets with
    | query m _, .ok r => (Status.updates m r).toOption.getD []
    | _, _ => []
  | _ => []

end Stage

/-- The stages of the queries for these methods. -/
def queries : List Method → List Stage
  | [] => []
  | m :: rest => .query m rest :: queries rest

def stages : List Stage := .probe :: queries Method.statusQueries

/-- A poll that has begun in `s` and has come to `u`, with these updates published. -/
structure UnderWay (s u : Session) (us : List (String × Value)) : Prop extends u.Open where
  config : u.config = s.config
  lastUpdate : u.lastUpdate = s.lastUpdate
  publications : u.publications = s.publications ++ us.map fun p => (p.1, .value p.2)
  channels : ∀ p ∈ us, p.1 ≠ lastUpdateChannel

/-- A poll that has failed. -/
structure Broken (s u : Session) (failures : Nat) : Prop where
  lastUpdate : u.lastUpdate = s.lastUpdate
  publications : ∃ ps, u.publications = s.publications ++ ps ∧ ∀ p ∈ ps, p.1 ≠ lastUpdateChannel
  failures : u.health.failures = failures

/-- A poll that is complete. -/
structure Complete (s u : Session) (us : List (String × Value)) (now : Moment) : Prop where
  lastUpdate : u.lastUpdate = some now
  lastError : u.lastError = none
  publications : u.publications =
    s.publications ++ us.map (fun p => (p.1, .value p.2)) ++ [(lastUpdateChannel, .moment now)]
  status : u.health.status = .online
  failures : u.health.failures = 0

theorem exec_giveUp (h : u.Open) {e : Trouble} (ordinary : ¬ e.OfUser) :
    ∃ text, (giveUp e).exec u =
      (.ok (.ended false), { u with lastError := some text }.recorded false) := by
  have open' : ∀ text, Session.Open { u with lastError := some text } := fun _ => ⟨h.live, h.host⟩
  refine ⟨troubleText e, ?_⟩
  unfold giveUp
  split
  · next message => exact absurd ⟨message, rfl⟩ ordinary
  · rw [Turn.exec_bind, Turn.exec_modify]
    dsimp only
    rw [Turn.exec_bind, Turn.exec_record_open (open' _)]
    rfl

/-- A poll gives up: what was published stays so, and one more failure is taken down. -/
theorem UnderWay.giveUp {us : List (String × Value)} (h : UnderWay s u us) {e : Trouble}
    (ordinary : ¬ e.OfUser) : ∃ v, (Poll.giveUp e).exec u = (.ok (.ended false), v) ∧
      Broken s v (u.health.failures + 1) := by
  obtain ⟨text, ended⟩ := exec_giveUp h.toOpen ordinary
  obtain ⟨news, silent, recorded⟩ := Session.recorded_eq { u with lastError := some text } false
  rw [recorded] at ended
  refine ⟨_, ended, h.lastUpdate, ⟨us.map fun p => (p.1, .value p.2), ?_, ?_⟩, rfl⟩
  · rw [← h.publications, Session.publications, List.filterMap_append, silent, List.append_nil]
    rfl
  · exact List.forall_mem_map.mpr h.channels

theorem exec_goOn_last (h : u.Open) (online : u.health.isOnline = true) (now : Moment) :
    (goOn now []).exec u = (.ok (.ended true),
      { u with lastUpdate := some now, lastError := none }.emit
        (.published lastUpdateChannel (.moment now))) := by
  have still : Session.Open { u with lastUpdate := some now, lastError := none } := ⟨h.live, h.host⟩
  unfold goOn
  rw [Turn.exec_bind, Turn.exec_modify]
  dsimp only
  rw [Turn.exec_bind, Turn.exec_publish_open still online]
  rfl

theorem UnderWay.complete {us : List (String × Value)} (h : UnderWay s u us)
    (online : u.health.status = .online) (failures : u.health.failures = 0) (now : Moment) :
    ∃ v, (goOn now []).exec u = (.ok (.ended true), v) ∧ Complete s v us now := by
  refine ⟨_, exec_goOn_last h.toOpen (by simp [Health.isOnline, online]) now, rfl, rfl, ?_, online, failures⟩
  rw [← h.publications]
  simp [Session.publications, Session.emit, Notice.publication?]

theorem exec_goOn_more (h : u.Open) (now : Moment) (m : Method) (rest : List Method) :
    (goOn now (m :: rest)).exec u =
      (.ok (.ask ((Stage.query m rest).exchange u) (.query m rest)), u) := by
  unfold goOn
  simp [h.live, Stage.exchange, Stage.payload]

theorem UnderWay.announce {us vs : List (String × Value)} (h : UnderWay s u us)
    (other : ∀ p ∈ vs, p.1 ≠ lastUpdateChannel) : UnderWay s (u.announce vs) (us ++ vs) where
  live := h.live
  host := h.host
  config := h.config
  lastUpdate := h.lastUpdate
  publications := by rw [Session.publications_announce, h.publications, List.map_append, List.append_assoc]
  channels := List.forall_mem_append.mpr ⟨h.channels, other⟩

theorem updates_channel (stage : Stage) (a : Answered) :
    ∀ p ∈ stage.updates a, p.1 ≠ lastUpdateChannel := by
  unfold Stage.updates
  split
  · split
    · next m _ r _ =>
      cases hu : Status.updates m r with
      | error e => exact List.forall_mem_nil _
      | ok us =>
        have known := Status.channel_of_updatesOf hu
        have other : ∀ c ∈ (Status.fields m).map (·.channel), c ≠ lastUpdateChannel := by
          cases m <;> decide
        exact fun p hp => other _ (known p hp)
    · exact List.forall_mem_nil _
  · exact List.forall_mem_nil _

theorem exec_absorb (h : u.Open) (online : u.health.isOnline = true) (m : Method) (rest : List Method)
    (reply : Option Octets) (fine : (Stage.query m rest).faults reply = false) :
    (absorb m reply).exec u = (.ok (), u.announce ((Stage.query m rest).updates (.ok reply))) := by
  have nothing : u.announce [] = u := by simp [Session.announce]
  cases reply with
  | none => exact congrArg _ nothing.symm
  | some octets =>
    unfold Stage.faults Reply.faults at fine
    unfold absorb Stage.updates
    dsimp only at fine ⊢
    split at fine
    · next hd =>
      rw [hd]
      exact congrArg _ nothing.symm
    · cases fine
    · next r hd =>
      rw [hd]
      dsimp only
      cases hu : Status.updates m r with
      | error f =>
        rw [hu] at fine
        cases fine
      | ok us => exact exec_publishAll h online us

theorem exec_absorb_fault (h : u.Open) (m : Method) (rest : List Method) (reply : Option Octets)
    (faulty : (Stage.query m rest).faults reply = true) :
    ∃ e, (absorb m reply).exec u = (.error e, u) ∧ ¬ e.OfUser := by
  have fails := (absorb_records m rest reply u (.inr h.host)).2.2
  have same : ((absorb m reply).exec u).2 = u := by
    cases reply with
    | none => rfl
    | some octets =>
      unfold Stage.faults Reply.faults at faulty
      unfold absorb
      dsimp only at faulty ⊢
      split
      · rfl
      · rfl
      · next r hd =>
        rw [hd] at faulty
        cases hu : Status.updates m r with
        | error f => rfl
        | ok us =>
          simp only [hu] at faulty
          cases faulty
  rcases he : (absorb m reply).exec u with ⟨e | a, v⟩ <;> rw [he] at fails same
  · exact ⟨e, by rw [← same], fails.2⟩
  · exact absurd (fails.symm.trans faulty) Bool.false_ne_true

/-- The answer to a query, if nothing goes wrong with it, and the stage that comes next. -/
theorem exec_resume_query {us : List (String × Value)} (h : UnderWay s u us)
    (online : u.health.status = .online) (now : Moment) (m : Method) (rest : List Method) {a : Answered}
    (passes : (Stage.query m rest).passes a = true) :
    ∃ v, UnderWay s v (us ++ (Stage.query m rest).updates a) ∧ v.health = u.health ∧
      (resume now (.query m rest) a).exec u = (tryCatch (goOn now rest) Poll.giveUp).exec v := by
  have ready : u.health.isOnline = true := by simp [Health.isOnline, online]
  cases a with
  | error e => cases passes
  | ok reply =>
    have fine : (Stage.query m rest).faults reply = false := by
      simpa [Stage.passes] using passes
    refine ⟨_, h.announce (updates_channel (.query m rest) (.ok reply)), rfl, ?_⟩
    unfold resume proceed
    rw [Turn.exec_tryCatch, Turn.exec_tryCatch, Turn.exec_bind, Turn.exec_ofExcept]
    dsimp only
    rw [Turn.exec_bind, exec_absorb h.toOpen ready m rest reply fine]

/-- The answer to a query, if something goes wrong with it. -/
theorem exec_resume_query_failed {us : List (String × Value)} (h : UnderWay s u us) (now : Moment)
    (m : Method) (rest : List Method) {a : Answered} (ordinary : ∀ e, a = .error e → ¬ e.OfUser)
    (fails : (Stage.query m rest).passes a = false) :
    ∃ v, (resume now (.query m rest) a).exec u = (.ok (.ended false), v) ∧
      Broken s v (u.health.failures + 1) := by
  have stops : ∃ e, (proceed now (.query m rest) a).exec u = (.error e, u) ∧ ¬ e.OfUser := by
    unfold proceed
    rw [Turn.exec_bind, Turn.exec_ofExcept]
    cases a with
    | error e => exact ⟨e, rfl, ordinary e rfl⟩
    | ok reply =>
      have faulty : (Stage.query m rest).faults reply = true := by
        simpa [Stage.passes] using fails
      obtain ⟨e, absorbed, native⟩ := exec_absorb_fault h.toOpen m rest reply faulty
      refine ⟨e, ?_, native⟩
      dsimp only
      rw [Turn.exec_bind, absorbed]
  obtain ⟨e, stopped, native⟩ := stops
  unfold resume
  rw [Turn.exec_tryCatch, stopped]
  exact h.giveUp native

theorem Stage.updates_probe (a : Answered) : Stage.probe.updates a = [] := by
  unfold Stage.updates
  split <;> rfl

theorem exec_identify (octets : Octets) (u : Session) :
    (∃ identity, (identify octets).exec u = (.ok (), { u with identity }) ∧
      Reply.faults octets Identity.ofResult = false) ∨
    ∃ e, (identify octets).exec u = (.error e, u) ∧ ¬ e.OfUser ∧
      Reply.faults octets Identity.ofResult = true := by
  unfold identify Reply.faults
  rcases hd : Reply.decode octets with (e | f) | r
  · exact .inl ⟨u.identity, rfl, rfl⟩
  · exact .inr ⟨_, rfl, not_ofUser (Reply.homely_decode octets _ f hd rfl), rfl⟩
  · rcases hr : Identity.ofResult r with f | _ | i
    · refine .inr ⟨.fault f, ?_, not_ofUser (Identity.homely_ofResult r f f hr rfl), ?_⟩ <;>
        simp [hr]
    · exact .inl ⟨u.identity, by simp [hr], by simp [hr]⟩
    · exact .inl ⟨some i, by simp [hr], by simp [hr]⟩

/-- What the reply to a probe comes to, apart from what is learned of the device. -/
theorem exec_probed (h : s.Open) (reply : Option Octets) :
    (∃ identity, (probed reply).exec s =
        (.ok (responds reply), { s.recorded (responds reply) with identity }) ∧
      Stage.probe.faults reply = false) ∨
    ∃ e, (probed reply).exec s = (.error e, s.recorded (responds reply)) ∧ ¬ e.OfUser ∧
      Stage.probe.faults reply = true := by
  unfold probed
  split
  · refine .inl ⟨(s.recorded false).identity, ?_, rfl⟩
    rw [Turn.exec_bind, Turn.exec_record_open h]
    rfl
  · refine .inl ⟨(s.recorded false).identity, ?_, rfl⟩
    rw [Turn.exec_bind, Turn.exec_record_open h]
    rfl
  · next octets some_octets =>
    have there : responds (some octets) = true := by
      cases octets with
      | nil => exact absurd rfl some_octets
      | cons o os => rfl
    rw [Turn.exec_bind, Turn.exec_record_open h, there, Stage.faults, there, Bool.true_and]
    dsimp only
    rw [Turn.exec_bind]
    rcases exec_identify octets (s.recorded true) with ⟨i, hi, fine⟩ | ⟨e, he, native, faulty⟩
    · exact .inl ⟨i, by rw [hi]; rfl, fine⟩
    · exact .inr ⟨e, by rw [he], native, faulty⟩

theorem UnderWay.refl (h : s.Open) : UnderWay s s [] where
  live := h.live
  host := h.host
  config := rfl
  lastUpdate := rfl
  publications := (List.append_nil _).symm
  channels := List.forall_mem_nil _

theorem UnderWay.recorded (h : s.Open) (reachable : Bool) (identity : Option Identity) :
    UnderWay s { s.recorded reachable with identity } [] := by
  obtain ⟨news, silent, recorded⟩ := Session.recorded_eq s reachable
  rw [recorded]
  refine ⟨⟨h.live, h.host⟩, rfl, rfl, ?_, List.forall_mem_nil _⟩
  rw [Session.publications, List.filterMap_append, silent]
  rfl

/-- The answer to a probe, if the device is there and nothing goes wrong. -/
theorem exec_resume_probe (h : s.Open) (now : Moment) {a : Answered} (passes : Stage.probe.passes a = true) :
    ∃ v, UnderWay s v [] ∧ v.health.status = .online ∧ v.health.failures = 0 ∧
      (resume now .probe a).exec s = (tryCatch (goOn now Method.statusQueries) Poll.giveUp).exec v := by
  cases a with
  | error e => cases passes
  | ok reply =>
    have good : Stage.probe.faults reply = false ∧ responds reply = true := by
      simpa [Stage.passes] using passes
    rcases exec_probed h reply with ⟨identity, probed, -⟩ | ⟨e, -, -, faulty⟩
    · rw [good.2] at probed
      refine ⟨_, .recorded h true identity, congrArg Health.status (Session.health_recorded s true),
        congrArg Health.failures (Session.health_recorded s true), ?_⟩
      unfold resume proceed
      rw [Turn.exec_tryCatch, Turn.exec_tryCatch, Turn.exec_bind, Turn.exec_ofExcept]
      dsimp only
      rw [Turn.exec_bind, probed]
      rfl
    · exact absurd (good.1.symm.trans faulty) Bool.false_ne_true

/-- Whether an answer shows that the device is there. -/
def reached : Answered → Bool
  | .ok reply => responds reply
  | .error _ => false

theorem Stage.reached_of_passes {a : Answered} (passes : Stage.probe.passes a = true) :
    Poll.reached a = true := by
  cases a with
  | error e => cases passes
  | ok reply => exact (show _ ∧ responds reply = true by simpa [Stage.passes] using passes).2

/-- The answer to a probe, if there is no device or something goes wrong. One failure is taken down,
after the success if there was one. -/
theorem exec_resume_probe_failed (h : s.Open) (now : Moment) {a : Answered}
    (ordinary : ∀ e, a = .error e → ¬ e.OfUser) (fails : Stage.probe.passes a = false) :
    ∃ v, (resume now .probe a).exec s = (.ok (.ended false), v) ∧
      Broken s v (if reached a then 1 else s.health.failures + 1) := by
  unfold resume proceed
  rw [Turn.exec_tryCatch, Turn.exec_bind, Turn.exec_ofExcept]
  cases a with
  | error e => exact (UnderWay.refl h).giveUp (ordinary e rfl)
  | ok reply =>
    dsimp only
    rw [Turn.exec_bind]
    rcases exec_probed h reply with ⟨identity, probed, fine⟩ | ⟨e, probed, native, faulty⟩
    · have silent : responds reply = false := by
        simpa [Stage.passes, fine] using fails
      have under := UnderWay.recorded h false identity
      rw [probed, reached, silent]
      exact ⟨_, rfl, under.lastUpdate, ⟨_, under.publications, List.forall_mem_nil _⟩,
        congrArg Health.failures (Session.health_recorded s false)⟩
    · have there : responds reply = true := by
        unfold Stage.faults at faulty
        split at faulty
        · cases faulty
        · exact (Bool.and_eq_true_iff.mp faulty).1
      have under := UnderWay.recorded h true (s.recorded true).identity
      have failures : (s.recorded true).health.failures = 0 :=
        congrArg Health.failures (Session.health_recorded s true)
      rw [probed, reached, there]
      have ended := under.giveUp native
      dsimp only at ended
      rw [failures] at ended
      exact ended

section
variable {m : Type → Type} [Monad m] (c : Carrier m)

theorem exec_conclude (t : Turn Next) (u : Session) : (Routine.conclude .answer t).exec u =
    match t.exec u with
    | (.ok (.ask x stage), v) => (.ok (.ask x (.poll stage .answer)), v)
    | (.ok (.ended complete), v) => (.ok (.done (.flag complete)), v)
    | (.error e, v) => (.error e, v) := by
  unfold Routine.conclude
  rw [Turn.exec_bind]
  rcases t.exec u with ⟨e | next, v⟩
  · rfl
  · cases next <;> rfl

/-- A poll goes on with its exchange. -/
def waiting (fuel : Nat) (u : Session) (stage : Stage) : m (Session × Except Trouble Outcome) := do
  let (now, a) ← c.exchange (stage.exchange u)
  Routine.carryOut c fuel u (Routine.conclude .answer (resume now stage a))

theorem alone_eq (s : Session) :
    Routine.alone c s .poll = Routine.carryOut c (15 + 1) s (Routine.conclude .answer begin) := rfl

theorem carryOut_ask {t : Turn Next} {u v : Session} {stage : Stage}
    (h : t.exec u = (.ok (.ask (stage.exchange v) stage), v)) (fuel : Nat) :
    Routine.carryOut c (fuel + 1) u (Routine.conclude .answer t) = waiting c fuel v stage := by
  have concluded := exec_conclude t u
  rw [h] at concluded
  unfold Routine.carryOut
  rw [show (Routine.conclude .answer t).run.run u = _ from concluded]
  rfl

theorem carryOut_congr {t t' : Turn Next} {u v : Session} (h : t.exec u = t'.exec v) (fuel : Nat) :
    Routine.carryOut c fuel u (Routine.conclude .answer t) =
      Routine.carryOut c fuel v (Routine.conclude .answer t') := by
  have concluded : (Routine.conclude .answer t).exec u = (Routine.conclude .answer t').exec v := by
    rw [exec_conclude, exec_conclude, h]
  unfold Routine.carryOut
  rw [show (Routine.conclude .answer t).run.run u = _ from concluded]
  rfl

theorem carryOut_ended {t : Turn Next} {u v : Session} {complete : Bool}
    (h : t.exec u = (.ok (.ended complete), v)) (fuel : Nat) :
    Routine.carryOut c fuel u (Routine.conclude .answer t) = pure (v, .ok (.flag complete)) := by
  have concluded := exec_conclude t u
  rw [h] at concluded
  unfold Routine.carryOut
  rw [show (Routine.conclude .answer t).run.run u = _ from concluded]

end

/-- The answers of the device to the exchanges of some stages, of which the first is exchange number
`n`. -/
def answers (device : Nat → Surroundings) (s : Session) : Nat → List Stage → List (Stage × Answered)
  | _, [] => []
  | n, stage :: rest =>
    (stage, ((stage.exchange s).run (device n)).answered) :: answers device s (n + 1) rest

theorem answers_payloads (device : Nat → Surroundings) (s : Session) (n : Nat) (stages : List Stage) :
    (answers device s n stages).map (·.1.payload) = stages.map Stage.payload := by
  induction stages generalizing n with
  | nil => rfl
  | cons stage rest ih => exact congrArg _ (ih (n + 1))

/-- How a poll ends that begun in `s`, has published `us`, and then gets these answers and sends
these requests. With `failures` it ends if something goes wrong. -/
structure Finishes (s : Session) (us : List (String × Value)) (failures : Nat) (now : Moment)
    (as : List (Stage × Answered)) (sent : List String) (u : Session) (r : Except Trouble Outcome) :
    Prop where
  whole : (∀ p ∈ as, p.1.passes p.2 = true) → sent = as.map (·.1.payload) ∧ r = .ok (.flag true) ∧
    Complete s u (us ++ as.flatMap fun p => p.1.updates p.2) now
  cut : (∃ p ∈ as, p.1.passes p.2 = false) → sent <+: as.map (·.1.payload) ∧ r = .ok (.flag false) ∧
    Broken s u failures

namespace Finishes

variable {us : List (String × Value)} {failures : Nat} {now : Moment} {as : List (Stage × Answered)}
  {sent : List String} {r : Except Trouble Outcome} {stage : Stage} {a : Answered}

/-- Either nothing goes wrong or something does. -/
theorem decided (h : Finishes s us failures now as sent u r) :
    sent <+: as.map (·.1.payload) ∧ ∃ complete, r = .ok (.flag complete) := by
  by_cases all : ∀ p ∈ as, p.1.passes p.2 = true
  · obtain ⟨same, answer, -⟩ := h.whole all
    exact ⟨⟨[], by rw [List.append_nil, same]⟩, true, answer⟩
  · obtain ⟨p, failed⟩ := not_forall.mp all
    obtain ⟨hp, failed⟩ := Classical.not_imp.mp failed
    obtain ⟨requests, answer, -⟩ := h.cut ⟨p, hp, Bool.eq_false_of_not_eq_true failed⟩
    exact ⟨requests, false, answer⟩

theorem complete (h : Complete s u us now) : Finishes s us failures now [] [] u (.ok (.flag true)) where
  whole _ := ⟨rfl, rfl, by simpa using h⟩
  cut fails := by simp at fails

theorem pass (passes : stage.passes a = true)
    (h : Finishes s (us ++ stage.updates a) failures now as sent u r) :
    Finishes s us failures now ((stage, a) :: as) (stage.payload :: sent) u r where
  whole all := by
    obtain ⟨same, answer, complete⟩ := h.whole fun p hp => all p (List.mem_cons_of_mem _ hp)
    refine ⟨by rw [same]; rfl, answer, ?_⟩
    rwa [List.append_assoc] at complete
  cut fails := by
    obtain ⟨p, hp, failed⟩ := fails
    rcases List.mem_cons.mp hp with rfl | hp
    · exact absurd (failed.symm.trans passes) Bool.false_ne_true
    · obtain ⟨prefix', answer, broken⟩ := h.cut ⟨p, hp, failed⟩
      exact ⟨List.cons_prefix_cons.mpr ⟨rfl, prefix'⟩, answer, broken⟩

theorem fail (fails : stage.passes a = false) (broken : Broken s u failures)
    (tried : sent = [stage.payload] ∨ sent = []) :
    Finishes s us failures now ((stage, a) :: as) sent u (.ok (.flag false)) where
  whole all := absurd (fails.symm.trans (all _ List.mem_cons_self)) Bool.false_ne_true
  cut _ := by
    refine ⟨?_, rfl, broken⟩
    rcases tried with rfl | rfl
    · exact List.cons_prefix_cons.mpr ⟨rfl, List.nil_prefix⟩
    · exact List.nil_prefix

end Finishes

section
variable {device : Nat → Surroundings} {clock : Nat → Moment}

/-- When the last of some queries has its answer, of which the first is exchange number `n`. -/
def lastMoment (clock : Nat → Moment) (now : Moment) : Nat → List Method → Moment
  | _, [] => now
  | n, _ :: rest => lastMoment clock (clock n) (n + 1) rest

theorem sent_of_passes {stage : Stage} {n : Nat}
    (passes : stage.passes ((stage.exchange s).run (device n)).answered = true) :
    ((stage.exchange s).run (device n)).sent = [stage.payload] := by
  rcases (stage.exchange s).sent_run (device n) with sent | ⟨-, t, failed⟩
  · exact sent
  · rw [failed] at passes
    cases passes

theorem tried (stage : Stage) (n : Nat) : ((stage.exchange s).run (device n)).sent = [stage.payload] ∨
    ((stage.exchange s).run (device n)).sent = [] :=
  ((stage.exchange s).sent_run (device n)).imp_right And.left

theorem run_waiting (fuel : Nat) (u : Session) (stage : Stage) (traces : List Exchange.Trace) :
    let trace := (stage.exchange u).run (device traces.length)
    (waiting (scripted device clock) fuel u stage).run traces =
      (Routine.carryOut (scripted device clock) fuel u (Routine.conclude .answer
        (resume (clock traces.length) stage trace.answered))).run (traces ++ [trace]) := rfl

variable (calm : ∀ n, (device n).Calm)
include calm

/-- What is left of a poll when the answer to a stage has been dealt with, by the queries that are
left. -/
theorem run_goOn {us : List (String × Value)} (rest : List Method) (h : UnderWay s u us)
    (online : u.health.status = .online) (failures : u.health.failures = 0) {fuel : Nat}
    (enough : rest.length ≤ fuel) (now : Moment) (traces : List Exchange.Trace) :
    ∃ v r more, (Routine.carryOut (scripted device clock) fuel u (Routine.conclude .answer
        (tryCatch (goOn now rest) giveUp))).run traces = ((v, r), traces ++ more) ∧
      Finishes s us 1 (lastMoment clock now traces.length rest)
        (answers device s traces.length (queries rest)) (more.flatMap (·.sent)) v r := by
  induction rest generalizing u us fuel now traces with
  | nil =>
    obtain ⟨v, ended, complete⟩ := h.complete online failures now
    have guarded : (tryCatch (goOn now []) giveUp).exec u = (.ok (.ended true), v) := by
      rw [Turn.exec_tryCatch, ended]
    rw [carryOut_ended _ guarded]
    exact ⟨v, _, [], by rw [List.append_nil]; rfl, .complete complete⟩
  | cons m rest ih =>
    obtain ⟨fuel, rfl⟩ : ∃ k, fuel = k + 1 := ⟨fuel - 1, by simp at enough; omega⟩
    let stage := Stage.query m rest
    have guarded : (tryCatch (goOn now (m :: rest)) giveUp).exec u =
        (.ok (.ask (stage.exchange u) stage), u) := by
      rw [Turn.exec_tryCatch, exec_goOn_more h.toOpen]
    have same : stage.exchange u = stage.exchange s := by
      rw [Stage.exchange, h.config]
      rfl
    rw [carryOut_ask _ guarded, run_waiting, same]
    let trace := (stage.exchange s).run (device traces.length)
    change ∃ v r more, StateT.run (Routine.carryOut _ fuel u (Routine.conclude .answer
      (resume (clock traces.length) stage trace.answered))) (traces ++ [trace]) = _ ∧ _
    cases passes : stage.passes trace.answered with
    | true =>
      obtain ⟨v, under, kept, resumed⟩ :=
        exec_resume_query h online (clock traces.length) m rest passes
      rw [carryOut_congr _ resumed]
      obtain ⟨w, r, more, ran, ends⟩ := ih under (kept ▸ online) (kept ▸ failures)
        (Nat.le_of_succ_le_succ enough) (clock traces.length) (traces ++ [trace])
      refine ⟨w, r, trace :: more, by rw [ran, List.append_assoc]; rfl, ?_⟩
      rw [List.length_append] at ends
      rw [List.flatMap_cons, show trace.sent = [stage.payload] from sent_of_passes passes]
      exact .pass passes ends
    | false =>
      obtain ⟨v, ended, broken⟩ := exec_resume_query_failed h (clock traces.length) m rest
        (Exchange.calm_run _ (calm _)) passes
      rw [failures] at broken
      rw [carryOut_ended _ ended]
      refine ⟨v, _, [trace], rfl, .fail passes broken ?_⟩
      rw [List.flatMap_singleton]
      exact tried stage _

/-- A poll from its start to its end. If the device does not answer the probe, that is all. -/
theorem run_poll (clock : Nat → Moment) (h : s.Open) :
    let first := (Stage.probe.exchange s).run (device 0)
    ∃ u r traces, (Routine.alone (scripted device clock) s .poll).run [] = ((u, r), traces) ∧
      Finishes s [] (if reached first.answered then 1 else s.health.failures + 1) (clock 6)
        (answers device s 0 stages) (traces.flatMap (·.sent)) u r ∧
      (reached first.answered = false → traces = [first]) := by
  intro first
  have begun : begin.exec s = (.ok (.ask (Stage.probe.exchange s) .probe), s) := by
    unfold begin
    simp [h.live, Stage.exchange, Stage.payload]
  rw [alone_eq, carryOut_ask _ begun, run_waiting]
  change ∃ u r traces, (Routine.carryOut (scripted device clock) 15 s (Routine.conclude .answer
    (resume (clock 0) .probe first.answered))).run [first] = _ ∧ _
  cases passes : Stage.probe.passes first.answered with
  | true =>
    have there := Stage.reached_of_passes passes
    obtain ⟨v, under, online, cleared, resumed⟩ := exec_resume_probe h (clock 0) passes
    obtain ⟨u, r, more, ran, ends⟩ := run_goOn calm Method.statusQueries under online cleared
      (show _ ≤ 15 by decide) (clock 0) [first]
    have last : lastMoment clock (clock 0) 1 Method.statusQueries = clock 6 := rfl
    rw [List.length_singleton, last] at ends
    rw [carryOut_congr _ resumed, ran]
    refine ⟨u, r, first :: more, rfl, ?_, fun silent => ?_⟩
    · rw [List.flatMap_cons, show first.sent = [Stage.probe.payload] from sent_of_passes passes, if_pos there]
      refine .pass passes ?_
      rw [Stage.updates_probe]
      exact ends
    · exact absurd (silent.symm.trans there) Bool.false_ne_true
  | false =>
    obtain ⟨v, ended, broken⟩ := exec_resume_probe_failed h (clock 0) (Exchange.calm_run _ (calm _)) passes
    rw [carryOut_ended _ ended]
    refine ⟨v, _, [first], rfl, .fail passes broken ?_, fun _ => rfl⟩
    rw [List.flatMap_singleton]
    exact tried .probe 0

/-- Nothing makes a poll fail that nothing comes in between of, whatever the device answers: it says
whether it is complete. It sends its requests in order, up to the first that something goes wrong
with, and none after the first if the device does not answer that. If nothing goes wrong, it
publishes what the replies say, one after another, and the time; otherwise no time is published and
one more failure is counted, or one in all if the device has been reached. -/
theorem poll_alone (h : s.Open) :
    let ((u, r), traces) := (Routine.alone (scripted device clock) s .poll).run []
    let sent := traces.flatMap (·.sent)
    let as := answers device s 0 stages
    let there := reached ((Stage.probe.exchange s).run (device 0)).answered
    (∃ complete, r = .ok (.flag complete)) ∧
    sent <+: stages.map Stage.payload ∧
    (there = false → sent <+: [Request.discoverText]) ∧
    ((∀ p ∈ as, p.1.passes p.2 = true) → sent = stages.map Stage.payload ∧ r = .ok (.flag true) ∧
      Complete s u (as.flatMap fun p => p.1.updates p.2) (clock 6)) ∧
    ((∃ p ∈ as, p.1.passes p.2 = false) → r = .ok (.flag false) ∧
      Broken s u (if there then 1 else s.health.failures + 1)) := by
  let first := (Stage.probe.exchange s).run (device 0)
  obtain ⟨u, r, traces, ran, ends, single⟩ := run_poll calm clock h
  rw [ran, ← answers_payloads device s 0]
  refine ⟨ends.decided.2, ends.decided.1, fun silent => ?_, fun all => ?_,
    fun fails => (ends.cut fails).2⟩
  · rw [single silent, List.flatMap_singleton]
    rcases tried .probe 0 with sent | sent
    · exact ⟨[], by rw [List.append_nil]; exact sent⟩
    · exact ⟨[_], by rw [show first.sent = [] from sent]; rfl⟩
  · obtain ⟨sent, answer, complete⟩ := ends.whole all
    exact ⟨sent, answer, by rwa [List.nil_append] at complete⟩

end

/-- Surroundings in which this arrives. -/
def hearing (arrival : Option (Nat × Arrival)) : Surroundings :=
  { addresses := .ok ["192.168.1.7"], arrival }

/-- A device that answers the first queries with its state of charge, with garbage, not at all, with a
refusal and too late, and everything else with a dictionary that says nothing. -/
def moody : Nat → Surroundings
  | 1 => hearing (some (20, .reply "\x7b\"result\":\x7b\"soc\":55\x7d\x7d".toUTF8.toList))
  | 2 => hearing (some (20, .reply [0xFF, 0x7B]))
  | 3 => hearing none
  | 4 => hearing (some (20, .reply "\x7b\"error\":\x7b\"code\":1\x7d\x7d".toUTF8.toList))
  | 5 => hearing (some (2000, .reply [0x7B, 0x7D]))
  | _ => hearing (some (20, .reply [0x7B, 0x7D]))

theorem calm_moody (n : Nat) : (moody n).Calm := by
  unfold moody
  split <;> exact ⟨nofun, nofun, nofun, nofun, nofun⟩

/-- The same with a query that comes to nothing. -/
def broken (n : Nat) : Surroundings :=
  if n = 3 then { moody n with send := .broken (.crash "no") } else moody n

theorem calm_broken (n : Nat) : (broken n).Calm := by
  have calm := calm_moody n
  unfold broken
  split
  · exact { calm with send := nofun }
  · exact calm

def fresh : Session := .start { host := "battery" } false

def hours (n : Nat) : Moment := ⟨n⟩

/-- The poll of the one is complete, that of the other fails after the device was reached. -/
theorem poll_alone_moody : fresh.Open ∧ (∀ n, (moody n).Calm) ∧ (∀ n, (broken n).Calm) ∧
    (∃ u traces, (Routine.alone (scripted moody hours) fresh .poll).run [] =
        ((u, .ok (.flag true)), traces) ∧
      (traces.flatMap (·.sent)).length = 7 ∧
      u.publications.map (·.1) = ["batterySoc", lastUpdateChannel] ∧ u.lastUpdate = some (hours 6)) ∧
    ∃ u traces, (Routine.alone (scripted broken hours) fresh .poll).run [] =
        ((u, .ok (.flag false)), traces) ∧
      traces.flatMap (·.sent) <+: stages.map Stage.payload ∧ u.lastUpdate = none ∧
      u.health.failures = 1 := by
  have fresh_open : fresh.Open := ⟨rfl, rfl⟩
  refine ⟨fresh_open, calm_moody, calm_broken, ?_, ?_⟩
  · have all : ((answers moody fresh 0 stages).all fun p => p.1.passes p.2) = true := by decide +kernel
    have channels : ((answers moody fresh 0 stages).flatMap fun p => p.1.updates p.2).map (·.1) =
      ["batterySoc"] := by decide +kernel
    have polled := @poll_alone fresh moody hours calm_moody fresh_open
    generalize (Routine.alone (scripted moody hours) fresh .poll).run [] = ran at polled ⊢
    obtain ⟨⟨u, r⟩, traces⟩ := ran
    obtain ⟨-, -, -, whole, -⟩ := polled
    obtain ⟨sent, rfl, complete⟩ := whole (List.all_eq_true.mp all)
    refine ⟨u, traces, rfl, by rw [sent]; rfl, ?_, complete.lastUpdate⟩
    rw [complete.publications, List.map_append, List.map_append, List.map_map]
    exact congrArg (· ++ [lastUpdateChannel]) channels
  · have fails : ((answers broken fresh 0 stages).any fun p => !p.1.passes p.2) = true := by
      decide +kernel
    have polled := @poll_alone fresh broken hours calm_broken fresh_open
    generalize (Routine.alone (scripted broken hours) fresh .poll).run [] = ran at polled ⊢
    obtain ⟨⟨u, r⟩, traces⟩ := ran
    obtain ⟨-, requests, -, -, cut⟩ := polled
    have there : reached ((Stage.probe.exchange fresh).run (broken 0)).answered = true := by
      decide +kernel
    obtain ⟨p, hp, failed⟩ := List.any_eq_true.mp fails
    obtain ⟨rfl, broke⟩ := cut ⟨p, hp, by simpa using failed⟩
    rw [if_pos there] at broke
    exact ⟨u, traces, rfl, requests, broke.lastUpdate, broke.failures⟩

end Poll
end BatteryLink
