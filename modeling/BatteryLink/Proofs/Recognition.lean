import BatteryLink.Proofs.Connection
/-!
What a session knows of who its device is: what the last of all replies to its probes told that told
anything. Nothing else changes it, and nothing takes it back. Whether a reply shows that the device is
there is another matter, for which it is enough that there is something in it.
-/
namespace BatteryLink

open Routine (Asked Cause)

/-- Whether the reply to a probe is read once it has been taken down. It is not if the host application
hears that the device is there and refuses to. -/
def Session.readsReplies (s : Session) : Bool :=
  s.disposed || s.host.status.isNone || s.health.isOnline

namespace Turn

variable {α β : Type} {t : Turn α} {f : α → Turn β} {news : Session → Option Identity}

/-- What a turn learns of who the device is. If it learns nothing, it leaves alone what is known. -/
def Learns (t : Turn α) (news : Session → Option Identity) : Prop :=
  ∀ s, (t.exec s).2.identity = (news s).or s.identity

/-- A turn that learns nothing at all of the device. -/
def Aloof (t : Turn α) : Prop := ∀ s : Session, s.Alike (t.exec s).2

theorem Aloof.learns (h : t.Aloof) : t.Learns fun _ => none := fun s => (h s).identity

theorem aloof_pure (a : α) : (pure a : Turn α).Aloof := fun _ => ⟨rfl, rfl⟩

theorem aloof_fail (e : Fault) : (fail e : Turn α).Aloof := fun _ => ⟨rfl, rfl⟩

theorem aloof_ofExcept (x : Except Trouble α) : (ofExcept x).Aloof := by
  intro s
  rw [exec_ofExcept]
  exact ⟨rfl, rfl⟩

theorem Aloof.bind (ht : t.Aloof) (hf : ∀ a, (f a).Aloof) : (t >>= f).Aloof := by
  intro s
  have first := ht s
  rw [exec_bind]
  rcases h : t.exec s with ⟨e | a, u⟩ <;> rw [h] at first
  · exact first
  · exact first.trans (hf a u)

/-- What comes after the one act that learns something changes nothing. -/
theorem Learns.bind (ht : t.Learns news) (hf : ∀ a, (f a).Learns fun _ => none) : (t >>= f).Learns news := by
  intro s
  have first := ht s
  rw [exec_bind]
  rcases h : t.exec s with ⟨e | a, u⟩ <;> rw [h] at first
  · exact first
  · exact (hf a u).trans first

theorem Learns.tryCatch {f : Trouble → Turn α} (ht : t.Learns news) (hf : ∀ e, (f e).Learns fun _ => none) :
    (MonadExcept.tryCatch t f).Learns news := by
  intro s
  have first := ht s
  rw [exec_tryCatch]
  rcases h : t.exec s with ⟨e | a, u⟩ <;> rw [h] at first
  · exact (hf e u).trans first
  · exact first

theorem aloof_publish (channel : String) (content : Published) : (publish channel content).Aloof := by
  intro s
  obtain ⟨r, hr, -⟩ := exec_publish channel content s
  rw [hr]
  split <;> exact ⟨rfl, rfl⟩

theorem record_learns (reachable : Bool) : (record reachable).Learns fun _ => none := by
  intro s
  obtain ⟨r, hr, -⟩ := exec_record reachable s
  obtain ⟨news, recorded, -⟩ := s.statuses_recorded reachable
  rw [hr, recorded]
  rfl

/-- A success is taken down in any case; only a host application that hears of it can object. -/
theorem exec_record_true (s : Session) :
    ∃ r, (record true).exec s = (r, s.recorded true) ∧ (r = .ok () ↔ s.readsReplies = true) := by
  obtain ⟨r, hr, -⟩ := exec_record true s
  refine ⟨r, hr, ?_⟩
  obtain rfl : ((record true).exec s).1 = r := by rw [hr]
  clear hr
  unfold record
  rw [exec_bind, exec_get]
  dsimp only
  rw [exec_bind, exec_set]
  dsimp only
  cases hc : s.health.changed (s.health.record true) with
  | none =>
    have online : s.health.status = .online := Health.status_of_changed_eq_none hc
    simp [Session.readsReplies, Health.isOnline, online]
  | some c =>
    have news : s.health.isOnline = false := by
      obtain ⟨differ, -⟩ := Health.changed_eq_some.mp hc
      exact beq_eq_false_iff_ne.mpr differ
    unfold report
    cases hd : s.disposed <;> cases hs : s.host.status <;>
      simp [Session.readsReplies, news, hd, hs]

end Turn

namespace Poll

open Turn (Aloof Learns)

theorem aloof_publishAll (us : List (String × Value)) : (publishAll us).Aloof := by
  induction us with
  | nil => exact Turn.aloof_pure ()
  | cons u us ih => exact (Turn.aloof_publish u.1 (.value u.2)).bind fun _ => ih

theorem aloof_absorb (m : Method) (reply : Option Octets) : (absorb m reply).Aloof := by
  unfold absorb
  split
  · exact Turn.aloof_pure ()
  · split
    · exact Turn.aloof_pure ()
    · exact Turn.aloof_fail _
    · split
      · exact Turn.aloof_fail _
      · exact aloof_publishAll _

/-- Nothing happens to the session when a query is sent. -/
theorem exec_goOn (now : Moment) (m : Method) (rest : List Method) (s : Session) :
    ∃ next, (goOn now (m :: rest)).exec s = (.ok next, s) := by
  unfold goOn
  rw [Turn.exec_bind, Turn.exec_get]
  dsimp only
  split <;> exact ⟨_, rfl⟩

theorem aloof_goOn (now : Moment) (ms : List Method) : (goOn now ms).Aloof := by
  cases ms with
  | nil =>
    have noted : (modify fun s => { s with lastUpdate := some now, lastError := none } : Turn PUnit).Aloof :=
      fun _ => ⟨rfl, rfl⟩
    exact noted.bind fun _ => (Turn.aloof_publish _ _).bind fun _ => Turn.aloof_pure _
  | cons m rest =>
    intro s
    obtain ⟨next, goes⟩ := exec_goOn now m rest s
    rw [goes]
    exact ⟨rfl, rfl⟩

theorem aloof_begin : begin.Aloof := by
  intro s
  unfold begin
  rw [Turn.exec_bind, Turn.exec_get]
  dsimp only
  split <;> exact ⟨rfl, rfl⟩

theorem giveUp_learns (e : Trouble) : (giveUp e).Learns fun _ => none := by
  unfold giveUp
  split
  · exact (Turn.aloof_fail _).learns
  · have noted (text : String) : (modify fun s => { s with lastError := some text } : Turn PUnit).Aloof :=
      fun _ => ⟨rfl, rfl⟩
    exact (noted _).learns.bind fun _ => (Turn.record_learns false).bind fun _ => (Turn.aloof_pure _).learns

theorem identify_learns (octets : Octets) : (identify octets).Learns fun _ => Reply.identity? octets := by
  intro s
  unfold identify Reply.identity?
  cases Reply.decode octets with
  | error e => cases e <;> rfl
  | ok r =>
    dsimp only
    cases Identity.ofResult r with
    | error f => rfl
    | ok i => cases i <;> rfl

/-- What the answer to a probe tells is learned if it is read. -/
theorem probed_learns (reply : Option Octets) :
    (probed reply).Learns fun s => if s.readsReplies then learned reply else none := by
  cases there : responds reply with
  | false =>
    rw [probed_silent there, learned_of_silent there]
    simp only [ite_self]
    exact (Turn.record_learns false).bind fun _ => (Turn.aloof_pure _).learns
  | true =>
    obtain ⟨o, os, rfl⟩ := exists_of_responds there
    intro s
    obtain ⟨r, hr, reads⟩ := Turn.exec_record_true s
    have kept := Turn.record_learns true s
    rw [hr] at kept
    change ((Turn.record true >>= fun _ => identify (o :: os) >>= fun _ => pure true).exec s).2.identity = _
    rw [Turn.exec_bind, hr]
    dsimp only
    cases r with
    | error e =>
      have unread : ¬ s.readsReplies = true := fun h => nomatch reads.mpr h
      rw [if_neg unread]
      exact kept
    | ok _ =>
      have learns := (identify_learns (o :: os)).bind fun _ => (Turn.aloof_pure true).learns
      rw [if_pos (reads.mp rfl)]
      exact (learns _).trans (congrArg _ kept)

/-- Whatever comes of a poll after its probe, and even if it is given up, what the probe told stays. -/
theorem resume_learns (now : Moment) (stage : Stage) (a : Answered) : (resume now stage a).Learns fun s =>
    if s.readsReplies then if stage = .probe then Routine.learned a else none else none := by
  refine Learns.tryCatch ?_ giveUp_learns
  cases stage with
  | query m rest =>
    have aloof : (proceed now (.query m rest) a).Aloof :=
      (Turn.aloof_ofExcept a).bind fun reply => (aloof_absorb m reply).bind fun _ => aloof_goOn now rest
    simpa only [reduceCtorEq, if_false, ite_self] using aloof.learns
  | probe =>
    simp only [if_true]
    cases a with
    | error e =>
      simp only [Routine.learned, ite_self]
      exact fun _ => rfl
    | ok reply =>
      refine (probed_learns reply).bind fun there => Aloof.learns ?_
      split
      · exact aloof_goOn now _
      · exact Turn.aloof_pure _

end Poll

namespace Routine

/-- Whether the answer to a probe is waited for. -/
def Asked.isProbe : Asked → Bool
  | .firstProbe | .probe | .poll .probe _ => true
  | .poll (.query _ _) _ | .order _ => false

/-- The identity that the reply to a probe tells, if the turn takes one. -/
def Cause.identity? : Cause → Option Identity
  | .answered _ k a => if k.isProbe then learned a else none
  | .started _ | .rested _ | .granted _ => none

theorem aloof_startPolling : startPolling.Aloof := by
  intro s
  rw [exec_startPolling]
  exact s.alike_polling

theorem checked_learns (a : Answered) : (Turn.ofExcept a >>= Poll.probed).Learns fun s =>
    if s.readsReplies then learned a else none := by
  cases a with
  | error e =>
    simp only [learned, ite_self]
    exact fun _ => rfl
  | ok reply => exact Poll.probed_learns reply

theorem firstAnswer_learns (a : Answered) : (firstAnswer a).Learns fun s =>
    if s.readsReplies then learned a else none := by
  unfold firstAnswer
  split
  · simp only [learned, ite_self]
    exact (Turn.record_learns false).bind fun _ => aloof_startPolling.learns
  · rw [← bind_assoc]
    exact (checked_learns a).bind fun _ => aloof_startPolling.learns

theorem probeAnswer_learns (a : Answered) : (probeAnswer a).Learns fun s =>
    if s.readsReplies then learned a else none := by
  unfold probeAnswer
  rw [← bind_assoc]
  exact (checked_learns a).bind fun _ => (Turn.aloof_pure _).learns

theorem conclude_learns {t : Turn Poll.Next} {news : Session → Option Identity} (h : t.Learns news)
    (purpose : Purpose) : (conclude purpose t).Learns news :=
  fun s => (conclude_alike purpose t s).identity.trans (h s)

theorem aloof_perform (self : TaskId) (o : Operation) : (perform self o).Aloof := by
  intro s
  have begun (purpose : Purpose) : s.Alike ((conclude purpose Poll.begin).exec s).2 :=
    (Poll.aloof_begin s).trans (conclude_alike purpose Poll.begin s)
  generalize hp : (perform self o).exec s = p
  have effect := perform_effect self o s
  rw [hp] at effect
  cases effect with
  | started h => exact h.alike
  | polled polls _ =>
    rw [← hp]
    cases polls with
    | poll => exact begun .answer
    | @refresh channel v hv =>
      change s.Alike ((command self channel v).exec s).2
      rw [exec_command]
      split
      · exact ⟨rfl, rfl⟩
      · exact begun .refresh
    | followUp id toggle => exact begun (.followUp id toggle)
  | held hc _ => cases hc
  | probed hc _ => cases hc

/-- A turn learns who the device is from the reply to a probe, and from nothing else. -/
theorem turn_learns (self : TaskId) (c : Cause) : (c.turn self).Learns fun s =>
    if s.readsReplies then c.identity? else none := by
  cases c with
  | started o =>
    simp only [Cause.identity?, ite_self]
    exact (aloof_perform self o).learns
  | answered now k a =>
    cases k with
    | firstProbe => exact firstAnswer_learns a
    | probe => exact probeAnswer_learns a
    | poll stage purpose =>
      have learns := conclude_learns (Poll.resume_learns now stage a) purpose
      cases stage with
      | probe => exact learns
      | query m rest =>
        simp only [reduceCtorEq, if_false] at learns
        simp only [Cause.identity?, Asked.isProbe, Bool.false_eq_true, if_false]
        exact learns
    | order stage =>
      simp only [Cause.identity?, Asked.isProbe, Bool.false_eq_true, if_false, ite_self]
      exact fun s => (proceed_held stage a s).alike.identity
  | rested w =>
    simp only [Cause.identity?, ite_self]
    exact fun s => (rested_held w (fun _ => False) s).alike.identity
  | granted k =>
    simp only [Cause.identity?, ite_self]
    exact fun s => (begin_held k (fun _ => False) s).alike.identity

end Routine

namespace Poll

variable {o : UInt8} {os : Octets} {s : Session}

/-- Looking for an identity changes nothing else, and fails only if the reply cannot be read. -/
theorem exec_identified (octets : Octets) (s : Session) : ∃ r identity,
    (identify octets >>= fun _ => pure true).exec s = (r, { s with identity }) ∧
      (Readable octets → r = .ok true) := by
  obtain ⟨r, identity, hr⟩ : ∃ r identity, (identify octets).exec s = (r, { s with identity }) := by
    unfold identify
    split
    · exact ⟨_, _, rfl⟩
    · exact ⟨_, _, rfl⟩
    · split <;> exact ⟨_, _, rfl⟩
  have read (h : Readable octets) : r = .ok () := by
    have fine := exec_identify_readable h s
    rw [hr] at fine
    exact congrArg Prod.fst fine
  rw [Turn.exec_bind, hr]
  cases r with
  | error e => exact ⟨_, _, rfl, fun h => nomatch read h⟩
  | ok _ => exact ⟨_, _, rfl, fun _ => rfl⟩

/-- A reply with something in it is a success, whatever stands in it. -/
theorem exec_probed_filled (o : UInt8) (os : Octets) (s : Session) :
    ∃ r u, (probed (some (o :: os))).exec s = (r, u) ∧ u.health = s.health.record true ∧
      (s.readsReplies = true → Readable (o :: os) → r = .ok true) := by
  obtain ⟨r, hr, reads⟩ := Turn.exec_record_true s
  obtain ⟨news, recorded, -⟩ := s.statuses_recorded true
  have health : (s.recorded true).health = s.health.record true := by rw [recorded]
  obtain ⟨q, identity, read, fine⟩ := exec_identified (o :: os) (s.recorded true)
  change ∃ r u, (Turn.record true >>= fun _ => identify (o :: os) >>= fun _ => pure true).exec s = (r, u) ∧ _
  rw [Turn.exec_bind, hr]
  cases r with
  | error e => exact ⟨_, _, rfl, health, fun h => nomatch reads.mpr h⟩
  | ok _ => exact ⟨q, _, read, health, fun _ => fine⟩

/-- A poll that is given up adds a failure at most. -/
theorem giveUp_health (e : Trouble) (s : Session) : ∃ later, (later = [] ∨ later = [false]) ∧
    ((giveUp e).exec s).2.health = s.health.after later := by
  unfold giveUp
  split
  · exact ⟨[], .inl rfl, rfl⟩
  · let noted : Session := { s with lastError := some (troubleText e) }
    obtain ⟨r, hr, -⟩ := Turn.exec_record false noted
    obtain ⟨news, recorded, -⟩ := noted.statuses_recorded false
    refine ⟨[false], .inr rfl, ?_⟩
    change ((Turn.record false >>= fun _ => pure (Next.ended false)).exec noted).2.health = _
    rw [Turn.exec_bind, hr, recorded]
    cases r <;> rfl

theorem resume_success (now : Moment) (o : UInt8) (os : Octets) (s : Session) : ∃ later,
    ((resume now .probe (.ok (some (o :: os)))).exec s).2.health = (s.health.record true).after later ∧
      (later = [] ∨ later = [false]) ∧ (s.readsReplies = true → Readable (o :: os) → later = []) := by
  obtain ⟨r, u, exec, health, fine⟩ := exec_probed_filled o os s
  change ∃ later, ((tryCatch (probed (some (o :: os)) >>= fun there =>
    if there then goOn now Method.statusQueries else pure (.ended false)) giveUp).exec s).2.health = _ ∧ _
  rw [Turn.exec_tryCatch, Turn.exec_bind, exec]
  cases r with
  | error e =>
    dsimp only
    obtain ⟨later, little, given⟩ := giveUp_health e u
    rw [health] at given
    exact ⟨later, given, little, fun reads readable => nomatch fine reads readable⟩
  | ok there =>
    dsimp only
    obtain ⟨next, goes⟩ : ∃ next,
        (if there then goOn now Method.statusQueries else pure (.ended false)).exec u = (.ok next, u) := by
      cases there with
      | false => exact ⟨_, rfl⟩
      | true => exact exec_goOn now _ _ u
    rw [goes]
    exact ⟨[], health, .inl rfl, fun _ _ => rfl⟩

end Poll

namespace Routine

/-- A probe that is answered with anything at all is a success. A poll may still fail after that, but
not for what stands in a reply that can be read. -/
theorem answered_success (now : Moment) {k : Asked} (probe : k.isProbe = true) (o : UInt8) (os : Octets)
    (s : Session) : ∃ later,
    ((answered now k (.ok (some (o :: os)))).exec s).2.health = (s.health.record true).after later ∧
      (later = [] ∨ later = [false]) ∧
      (s.readsReplies = true → Poll.Readable (o :: os) → later = []) := by
  obtain ⟨r, u, exec, health, -⟩ := Poll.exec_probed_filled o os s
  cases k with
  | firstProbe =>
    refine ⟨[], ?_, .inl rfl, fun _ _ => rfl⟩
    change ((Poll.probed (some (o :: os)) >>= fun _ => startPolling).exec s).2.health = _
    rw [Turn.exec_bind, exec]
    cases r with
    | error e => exact health
    | ok there => exact (aloof_startPolling u).health.trans health
  | probe =>
    refine ⟨[], ?_, .inl rfl, fun _ _ => rfl⟩
    change ((Poll.probed (some (o :: os)) >>= fun there => pure (Next.done (.flag there))).exec s).2.health = _
    rw [Turn.exec_bind, exec]
    cases r <;> exact health
  | poll stage purpose =>
    cases stage with
    | probe =>
      obtain ⟨later, resumed, little, fine⟩ := Poll.resume_success now o os s
      exact ⟨later, (conclude_alike purpose _ s).health.trans resumed, little, fine⟩
    | query m rest => cases probe
  | order stage => cases probe

end Routine

/-- The identity that a turn learns: the one that it reads in the reply to a probe. -/
def Entry.identity? (e : Entry) : Option Identity :=
  if e.before.readsReplies then e.cause.identity? else none

theorem Entry.Sound.identity {e : Entry} (h : e.Sound) :
    e.after.identity = e.identity?.or e.before.identity := by
  have learns := Routine.turn_learns e.task e.cause e.before
  rw [h.exec] at learns
  exact learns

theorem Identity.isSome_ofResult {r : Reply.Entries} {i : Option Identity} (h : ofResult r = .ok i) :
    i.isSome = identifies r := by
  unfold ofResult at h
  split at h
  · next known =>
    obtain ⟨_, -, h⟩ := bind_eq_ok.mp h
    obtain ⟨_, -, h⟩ := bind_eq_ok.mp h
    obtain ⟨_, -, h⟩ := bind_eq_ok.mp h
    obtain ⟨_, -, h⟩ := bind_eq_ok.mp h
    obtain ⟨_, -, h⟩ := bind_eq_ok.mp h
    obtain ⟨_, -, h⟩ := bind_eq_ok.mp h
    cases h
    exact known.symm
  · next unknown =>
    cases h
    exact (Bool.eq_false_iff.mpr unknown).symm

namespace Reply

variable {octets : Octets}

theorem identity?_eq_some {i : Identity} : identity? octets = some i ↔
    ∃ r, decode octets = .ok r ∧ Identity.ofResult r = .ok (some i) := by
  unfold identity?
  cases decode octets with
  | error p => simp
  | ok r =>
    have same : (Identity.ofResult r).toOption.join = some i ↔ Identity.ofResult r = .ok (some i) := by
      rcases Identity.ofResult r with f | (- | j) <;> simp [Except.toOption]
    simpa using same

/-- A reply tells who the device is if its result has one of the members that identify a device. -/
theorem isSome_identity? (fits : octets.length ≤ Exchange.bufferSize) : (identity? octets).isSome = true ↔
    ∃ r, decode octets = .ok r ∧ ∃ key ∈ Identity.identifying, (Value.get? key r).isSome = true := by
  rw [Option.isSome_iff_exists]
  constructor
  · rintro ⟨i, hi⟩
    obtain ⟨r, hr, told⟩ := identity?_eq_some.mp hi
    exact ⟨r, hr, List.any_eq_true.mp (Identity.isSome_ofResult told).symm⟩
  · rintro ⟨r, hr, key⟩
    have printable := printable_decode (fits.trans (by decide)) hr
    obtain ⟨i, told⟩ := Identity.ofResult_total printable
    have known : i.isSome = true := (Identity.isSome_ofResult told).trans (List.any_eq_true.mpr key)
    obtain ⟨i, rfl⟩ := Option.isSome_iff_exists.mp known
    exact ⟨i, identity?_eq_some.mpr ⟨r, hr, told⟩⟩

end Reply

namespace Crowd

variable {c d : Crowd}

/-- What is known of who the device is, is what the latest turn learned that learned it. -/
theorem Reachable.identity (h : c.Reachable) : c.session.identity = c.log.findSome? Entry.identity? := by
  refine h.induction (P := fun c => c.session.identity = c.log.findSome? Entry.identity?)
    (fun _ _ => rfl) fun c mv hr known => ?_
  have moved := step_moved c mv
  rcases moved_log hr.orderly moved with ⟨log, -⟩ | ⟨e, sound, before, log, session⟩
  · rw [(moved_alike hr.orderly moved log).identity, log]
    exact known
  · have learns := sound.identity
    rw [before, known] at learns
    rw [log, session, List.findSome?_cons]
    change e.after.identity = _
    rw [learns]
    cases e.identity? <;> rfl

/-- Whatever is asked of a session and however the device answers: who the device is, is known from the
latest reply to a probe that had a result with a member that identifies a device, and from nothing else.
Any reply that is not empty is taken down as a success, whether it tells that or not. Nothing comes
after that success, except that a poll which is then given up takes down a failure of its own: after a
host application that refuses to hear of the success and so keeps the reply from being read, or after a
reply that is nested deeper than the stack has room for. -/
theorem recognised (hc : c.Reachable) :
    c.session.identity = c.log.findSome? Entry.identity? ∧
    (∀ e ∈ c.log, e.after.identity = e.identity?.or e.before.identity) ∧
    ((∀ e ∈ c.log, e.before.host.status = none) →
      c.session.identity = c.log.findSome? fun e => e.cause.identity?) ∧
    (∀ e ∈ c.log, ∀ now k o os, e.cause = .answered now k (.ok (some (o :: os))) → k.isProbe = true →
      ∃ later, e.after.health = (e.before.health.record true).after later ∧
        (later = [] ∨ later = [false]) ∧
        (e.before.readsReplies = true → (o :: os).length ≤ Exchange.bufferSize →
          Json.levels (o :: os) ≤ Value.maxDepth → later = [])) ∧
    ∀ octets : Octets, octets.length ≤ Exchange.bufferSize →
      (∀ i, Reply.identity? octets = some i ↔
        ∃ r, Reply.decode octets = .ok r ∧ Identity.ofResult r = .ok (some i)) ∧
      ((Reply.identity? octets).isSome = true ↔ ∃ r, Reply.decode octets = .ok r ∧
        ∃ key ∈ Identity.identifying, (Value.get? key r).isSome = true) := by
  have sound := hc.orderly.sound
  refine ⟨hc.identity, fun e he => (sound e he).identity, fun willing => ?_, ?_, fun octets fits =>
    ⟨fun i => Reply.identity?_eq_some, Reply.isSome_identity? fits⟩⟩
  · rw [hc.identity]
    rw [← List.head?_filterMap, ← List.head?_filterMap]
    refine congrArg List.head? (List.filterMap_congr fun e he => ?_)
    unfold Entry.identity? Session.readsReplies
    rw [willing e he, Option.isNone_none, Bool.or_true, Bool.true_or, if_pos rfl]
  · intro e he now k o os cause probe
    obtain ⟨later, health, little, fine⟩ := Routine.answered_success now probe o os e.before
    have exec := (sound e he).exec
    rw [cause] at exec
    change (Routine.answered now k (.ok (some (o :: os)))).exec e.before = _ at exec
    rw [exec] at health
    refine ⟨later, health, little, fun reads fits shallow => fine reads ?_⟩
    exact Poll.readable_of_shallow (fits.trans (by decide)) shallow

/-- Garbage, a reply that tells who the device is, and what can come after that. -/
def introduced : List Move :=
  [.start .connect, .answer 0 ⟨0⟩ (.ok (some "Venus".toUTF8.toList)),
    .start .probe, .answer 1 ⟨1⟩ (.ok (some "\x7b\"result\":\x7b\"device\":\"VenusE\"\x7d\x7d".toUTF8.toList)),
    .start .probe, .answer 2 ⟨2⟩ (.ok (some "\x7b\"error\":\x7b\"code\":-32700\x7d\x7d".toUTF8.toList)),
    .start .probe, .answer 3 ⟨3⟩ (.ok (some [])),
    .start .poll, .answer 4 ⟨4⟩ (.ok none),
    .start .probe, .answer 5 ⟨5⟩ (.ok (some "\x7b\"result\":\x7b\"ver\":155\x7d\x7d".toUTF8.toList))]

/-- Everything in between leaves alone what the one good reply told. -/
theorem recognised_introduced :
    let c := (start { host := "10.0.0.2" } false).run introduced
    c.Reachable ∧ c.log.length = 12 ∧ (∀ e ∈ c.log, e.before.host.status = none) ∧
    (c.log.findSome? Entry.identity?).map Identity.model = some "Venus E" ∧
    (c.log.findSome? fun e => e.cause.identity?).map Identity.model = some "Venus E" := by
  intro c
  have reachable : c.Reachable := ⟨_, _, _, rfl⟩
  have turns : c.log.length = 12 := by decide +kernel
  have willing : ∀ e ∈ c.log, e.before.host.status = none := by decide +kernel
  have model : c.session.identity.map Identity.model = some "Venus E" := by decide +kernel
  obtain ⟨known, -, taken, -⟩ := recognised reachable
  exact ⟨reachable, turns, willing, known ▸ model, taken willing ▸ model⟩

end Crowd
end BatteryLink
