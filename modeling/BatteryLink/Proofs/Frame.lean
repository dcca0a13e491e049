import BatteryLink.Proofs.Course
/-!
What turns leave alone. A session is disposed of by nothing but its disposal, and its passive
settings stay in range.
-/
namespace BatteryLink

open Routine (Cause Next Effect)

namespace Session

theorem offered_eq (s : Session) (toggle : Option String) :
    ∃ outbox, s.offered toggle = { s with outbox } := by
  unfold offered
  split
  · exact ⟨_, rfl⟩
  · split <;> exact ⟨_, rfl⟩

theorem concluded_eq (s : Session) (t : Tally) (toggle : Option String) :
    ∃ pending nextJob outbox, s.concluded t toggle =
      { s with lastResult := some t, pending, nextJob, outbox } := by
  unfold concluded
  split
  · exact ⟨_, _, _, rfl⟩
  · obtain ⟨outbox, h⟩ := offered_eq { s with lastResult := some t } toggle
    exact ⟨_, _, outbox, h⟩

theorem released_eq (s : Session) : ∃ lock outbox, s.released = { s with lock, outbox } := by
  unfold released
  split <;> exact ⟨_, _, rfl⟩

theorem settled_eq (s : Session) (purpose : Routine.Purpose) :
    ∃ pending outbox, s.settled purpose = { s with pending, outbox } := by
  cases purpose with
  | answer => exact ⟨_, _, rfl⟩
  | refresh => exact ⟨_, _, rfl⟩
  | followUp id toggle =>
    obtain ⟨outbox, h⟩ := offered_eq { s with pending := s.pending.erase id } toggle
    exact ⟨_, outbox, h⟩

theorem polling_eq (s : Session) :
    ∃ pollJob nextJob outbox, s.polling = { s with pollJob, nextJob, outbox } := by
  unfold polling
  split <;> exact ⟨_, _, _, rfl⟩

/-- The same is known of the device. -/
structure Alike (s u : Session) : Prop where
  health : u.health = s.health
  identity : u.identity = s.identity

theorem Alike.trans {s u v : Session} (h : s.Alike u) (k : u.Alike v) : s.Alike v :=
  ⟨k.health.trans h.health, k.identity.trans h.identity⟩

variable (s : Session)

theorem alike_told (status : DeviceStatus) (detail : Option String) : s.Alike (s.told status detail) := by
  unfold told
  split <;> exact ⟨rfl, rfl⟩

theorem alike_offered (toggle : Option String) : s.Alike (s.offered toggle) := by
  obtain ⟨_, h⟩ := s.offered_eq toggle
  rw [h]
  exact ⟨rfl, rfl⟩

theorem alike_concluded (t : Tally) (toggle : Option String) : s.Alike (s.concluded t toggle) := by
  obtain ⟨_, _, _, h⟩ := s.concluded_eq t toggle
  rw [h]
  exact ⟨rfl, rfl⟩

theorem alike_released : s.Alike s.released := by
  obtain ⟨_, _, h⟩ := s.released_eq
  rw [h]
  exact ⟨rfl, rfl⟩

theorem alike_settled (purpose : Routine.Purpose) : s.Alike (s.settled purpose) := by
  obtain ⟨_, _, h⟩ := s.settled_eq purpose
  rw [h]
  exact ⟨rfl, rfl⟩

theorem alike_polling : s.Alike s.polling := by
  obtain ⟨_, _, _, h⟩ := s.polling_eq
  rw [h]
  exact ⟨rfl, rfl⟩

end Session

namespace Routine

/-- What a turn leaves alone if it neither disposes of the session nor writes a setting. -/
structure Calm (s u : Session) : Prop where
  config : u.config = s.config
  ownsRunner : u.ownsRunner = s.ownsRunner
  settings : u.settings = s.settings
  disposed : u.disposed = s.disposed
  host : u.host = s.host

theorem Calm.trans {s u v : Session} (h : Calm s u) (k : Calm u v) : Calm s v :=
  ⟨k.config.trans h.config, k.ownsRunner.trans h.ownsRunner, k.settings.trans h.settings,
    k.disposed.trans h.disposed, k.host.trans h.host⟩

theorem calm_path {s u : Session} (h : Poll.Path s u) : Calm s u := by
  obtain ⟨_, _, _, _, _, rfl⟩ := h.spares
  exact ⟨rfl, rfl, rfl, rfl, rfl⟩

theorem calm_told (s : Session) (status : DeviceStatus) (detail : Option String) :
    Calm s (s.told status detail) := by
  obtain ⟨_, _, _, _, _, h⟩ := Poll.spares_told s status detail
  rw [h]
  exact ⟨rfl, rfl, rfl, rfl, rfl⟩

theorem calm_offered (s : Session) (toggle : Option String) : Calm s (s.offered toggle) := by
  obtain ⟨_, h⟩ := s.offered_eq toggle
  rw [h]
  exact ⟨rfl, rfl, rfl, rfl, rfl⟩

theorem calm_concluded (s : Session) (t : Tally) (toggle : Option String) :
    Calm s (s.concluded t toggle) := by
  obtain ⟨_, _, _, h⟩ := s.concluded_eq t toggle
  rw [h]
  exact ⟨rfl, rfl, rfl, rfl, rfl⟩

theorem calm_released (s : Session) : Calm s s.released := by
  obtain ⟨_, _, h⟩ := s.released_eq
  rw [h]
  exact ⟨rfl, rfl, rfl, rfl, rfl⟩

theorem calm_settled (s : Session) (purpose : Purpose) : Calm s (s.settled purpose) := by
  obtain ⟨_, _, h⟩ := s.settled_eq purpose
  rw [h]
  exact ⟨rfl, rfl, rfl, rfl, rfl⟩

theorem calm_polling (s : Session) : Calm s s.polling := by
  obtain ⟨_, _, _, h⟩ := s.polling_eq
  rw [h]
  exact ⟨rfl, rfl, rfl, rfl, rfl⟩

variable {self : TaskId} {s : Session} {p : Except Trouble Next × Session}

theorem Held.calm {toggle : Option String} {n : Nat} {asks runs : Prop} {cut : Trouble → Prop}
    (h : Held toggle n asks runs cut s p) : Calm s p.2 := by
  cases h with
  | goes _ h =>
    cases h with
    | asked _ _ _ => exact ⟨rfl, rfl, rfl, rfl, rfl⟩
    | paused _ _ => exact ⟨rfl, rfl, rfl, rfl, rfl⟩
    | ended t => exact (calm_concluded s t toggle).trans (calm_released _)
    | unheard t _ _ => exact (calm_concluded s t toggle).trans (calm_released _)
  | dropped _ => exact calm_released s
  | interrupted _ => exact calm_released s

theorem Polled.calm {purpose : Purpose} {n : Nat} {cut : Trouble → Prop}
    (h : Polled purpose n cut s p) : Calm s p.2 := by
  cases h with
  | asked _ _ path => exact calm_path path
  | ended _ path => exact (calm_path path).trans (calm_settled _ _)
  | failed _ path => exact (calm_path path).trans (calm_settled _ _)

theorem Ordered.calm {k : Order.Kind} (h : Ordered self k s p) : Calm s p.2 := by
  cases h with
  | queued _ => exact ⟨rfl, rfl, rfl, rfl, rfl⟩
  | held _ h =>
    have locked : Calm s (s.locked self) := ⟨rfl, rfl, rfl, rfl, rfl⟩
    exact locked.trans h.calm

theorem Begun.calm {o : Operation} (h : Begun self o s p) :
    Calm s p.2 ∨ ∃ t, p = (.ok (.done .nothing), { s with settings := t }) ∧
      (s.settings.passive.InRange → t.passive.InRange) := by
  cases h with
  | idle _ => exact .inl ⟨rfl, rfl, rfl, rfl, rfl⟩
  | wrote ht => exact .inr ⟨_, rfl, ht⟩
  | ordered _ _ h => exact .inl h.calm
  | @turnedDown toggle =>
    have offered := calm_offered s toggle
    exact .inl ⟨offered.config, offered.ownsRunner, offered.settings, offered.disposed, offered.host⟩
  | unheard _ => exact .inl (calm_offered s _)

/-- Turns are calm but for disposals and for writing a setting. -/
theorem Effect.calm {c : Cause} (h : Effect self s c p) :
    (c ≠ .started .dispose ∧ Calm s p.2) ∨ (c = .started .dispose ∧ p.2 = s.closed) ∨
      (c ≠ .started .dispose ∧ ∃ t, p = (.ok (.done .nothing), { s with settings := t }) ∧
        (s.settings.passive.InRange → t.passive.InRange)) := by
  cases h with
  | @started o _ h =>
    cases h with
    | order ho h =>
      have other : Cause.started o ≠ .started .dispose := by
        rintro ⟨⟩
        cases ho
      rcases h.calm with calm | wrote
      · exact .inl ⟨other, calm⟩
      · exact .inr (.inr ⟨other, wrote⟩)
    | probed => exact .inl ⟨nofun, ⟨rfl, rfl, rfl, rfl, rfl⟩⟩
    | greeted => exact .inl ⟨nofun, calm_told s _ _⟩
    | ungreeted => exact .inl ⟨nofun, calm_told s _ _⟩
    | closed => exact .inr (.inl ⟨rfl, rfl⟩)
  | polled hp h =>
    exact .inl ⟨by cases hp <;> nofun, h.calm⟩
  | held hc h => exact .inl ⟨by cases hc <;> nofun, h.calm⟩
  | probed hc path => exact .inl ⟨by cases hc <;> nofun, calm_path path⟩
  | polling path => exact .inl ⟨nofun, (calm_path path).trans (calm_polling _)⟩

theorem Held.alike {toggle : Option String} {n : Nat} {asks runs : Prop} {cut : Trouble → Prop}
    (h : Held toggle n asks runs cut s p) : s.Alike p.2 := by
  cases h with
  | goes _ h =>
    cases h with
    | asked _ _ _ => exact ⟨rfl, rfl⟩
    | paused _ _ => exact ⟨rfl, rfl⟩
    | ended t => exact (s.alike_concluded t toggle).trans (Session.alike_released _)
    | unheard t _ _ => exact (s.alike_concluded t toggle).trans (Session.alike_released _)
  | dropped _ => exact s.alike_released
  | interrupted _ => exact s.alike_released

theorem Ordered.alike {k : Order.Kind} (h : Ordered self k s p) : s.Alike p.2 := by
  cases h with
  | queued _ => exact ⟨rfl, rfl⟩
  | held _ h =>
    have locked : s.Alike (s.locked self) := ⟨rfl, rfl⟩
    exact locked.trans h.alike

theorem Begun.alike {o : Operation} (h : Begun self o s p) : s.Alike p.2 := by
  cases h with
  | idle _ => exact ⟨rfl, rfl⟩
  | wrote _ => exact ⟨rfl, rfl⟩
  | ordered _ _ h => exact h.alike
  | @turnedDown toggle =>
    have offered := s.alike_offered toggle
    exact ⟨offered.health, offered.identity⟩
  | unheard _ => exact s.alike_offered _

/-- No operation begins with something that is learned of the device. -/
theorem Started.alike {o : Operation} (h : Started self s o p) : s.Alike p.2 := by
  cases h with
  | order _ h => exact h.alike
  | probed => exact ⟨rfl, rfl⟩
  | greeted => exact s.alike_told _ _
  | ungreeted => exact s.alike_told _ _
  | closed => exact ⟨rfl, rfl⟩

/-- A session is disposed of by its disposal and by nothing else. -/
theorem Effect.disposed_iff {c : Cause} (h : Effect self s c p) :
    p.2.disposed = true ↔ s.disposed = true ∨ c = .started .dispose := by
  rcases h.calm with ⟨hc, calm⟩ | ⟨hc, hp⟩ | ⟨hc, t, rfl, -⟩
  · simp [calm.disposed, hc]
  · simp [hp, hc, Session.closed]
  · simp [hc]

/-- Passive settings stay in range. -/
theorem Effect.inRange {c : Cause} (h : Effect self s c p) (hs : s.settings.passive.InRange) :
    p.2.settings.passive.InRange := by
  rcases h.calm with ⟨-, calm⟩ | ⟨-, hp⟩ | ⟨-, t, rfl, ht⟩
  · rwa [calm.settings]
  · rwa [hp]
  · exact ht hs

end Routine

/-- Whether a job is the poll that follows an order. -/
def Job.isFollowUp : Job → Bool
  | .followUp _ _ => true
  | _ => false

namespace Crowd

/-- What the turn of a task leaves in the log. -/
theorem advance_turn {c : Crowd} (h : c.Orderly) (t : Task) (cause : Cause) :
    ∃ e, e.Sound ∧ e.before = c.session ∧ e.task = t.id ∧ e.cause = cause ∧
      (c.advance t cause).log = e :: c.log ∧
      (c.advance t cause).session = { e.after with outbox := [] } := by
  obtain ⟨e, task, -, hcause, before, exec, jobs, clock, rest⟩ := advance_eq c t cause
  have sound : e.Sound := ⟨by rw [task, hcause, before]; exact exec, by rw [before]; exact h.swept⟩
  rcases rest with ⟨next, -, -, heq⟩ | ⟨out, -, heq⟩
  · exact ⟨e, sound, before, task, hcause, by rw [heq], by rw [heq]⟩
  · exact ⟨e, sound, before, task, hcause, by rw [heq], by rw [heq]⟩

theorem advance_log {c : Crowd} (h : c.Orderly) (t : Task) (cause : Cause) :
    ∃ e, e.Sound ∧ e.before = c.session ∧ (c.advance t cause).log = e :: c.log ∧
      (c.advance t cause).session = { e.after with outbox := [] } := by
  obtain ⟨e, sound, before, -, -, log, session⟩ := advance_turn h t cause
  exact ⟨e, sound, before, log, session⟩

/-- A turn that a move adds to the log. The first turn of a task has a new number. -/
def Turned (c d : Crowd) : Prop :=
  ∃ e, e.Sound ∧ e.before = c.session ∧ ((∃ o, e.cause = .started o) → e.task = c.nextTask) ∧
    d.log = e :: c.log ∧ d.session = { e.after with outbox := [] }

theorem Turned.log {c d : Crowd} (h : c.Turned d) :
    ∃ e, e.Sound ∧ e.before = c.session ∧ d.log = e :: c.log ∧
      d.session = { e.after with outbox := [] } := by
  obtain ⟨e, sound, before, -, log, session⟩ := h
  exact ⟨e, sound, before, log, session⟩

theorem spawn_turned {c : Crowd} (h : c.Orderly) (o : Operation) (job : Option JobId)
    (run : Option RunId) : c.Turned (c.spawn o job run) := by
  obtain ⟨e, sound, before, task, -, log, session⟩ :=
    advance_turn h.later ⟨c.nextTask, o, job, run⟩ (.started o)
  exact ⟨e, sound, before, fun _ => task, log, session⟩

theorem begin_turned {c : Crowd} (h : c.Orderly) (id : JobId) (run : Option RunId) :
    c.begin id run = c ∨ c.Turned (c.begin id run) := by
  unfold begin
  split
  · exact .inl rfl
  · next j _ =>
    have begun := h.with_jobs (Entrusted.beginAt c.jobs id) c.clock
    exact .inr (spawn_turned begun j.job.operation (some id) run)

theorem begin_log {c : Crowd} (h : c.Orderly) (id : JobId) (run : Option RunId) :
    c.begin id run = c ∨ ∃ e, e.Sound ∧ e.before = c.session ∧ (c.begin id run).log = e :: c.log ∧
      (c.begin id run).session = { e.after with outbox := [] } :=
  (begin_turned h id run).imp_right Turned.log

/-- An act that takes no time leaves a job to the scheduler, unless the session has been disposed
of. -/
theorem exec_instant {turn : Turn Bool} (h : Instant turn) (s : Session) :
    ∃ job : Job, job.isFollowUp = false ∧
      (turn.exec s).2 = if s.disposed then s else s.entrusted .once fun _ => job := by
  cases h with
  | refresh =>
    refine ⟨.poll, rfl, ?_⟩
    unfold Routine.requestRefresh
    rw [Turn.exec_bind, Turn.exec_get]
    dsimp only
    split <;> rfl
  | post channel v =>
    refine ⟨.command channel v, rfl, ?_⟩
    unfold Routine.postCommand
    rw [Turn.exec_bind, Turn.exec_get]
    dsimp only
    split <;> rfl

theorem calm_instant {turn : Turn Bool} (h : Instant turn) (s : Session) :
    Routine.Calm s (turn.exec s).2 := by
  obtain ⟨job, -, hu⟩ := exec_instant h s
  rw [hu]
  split <;> exact ⟨rfl, rfl, rfl, rfl, rfl⟩

theorem instant_lock {turn : Turn Bool} (h : Instant turn) (s : Session) :
    (turn.exec s).2.lock = s.lock := by
  obtain ⟨job, -, hu⟩ := exec_instant h s
  rw [hu]
  split <;> rfl

/-- A move adds a turn to the log, or it does nothing that disposals, settings and the lock are
about. -/
theorem moved_turned {c d : Crowd} (h : c.Orderly) (moved : Moved c d) :
    (d.log = c.log ∧ d.session.disposed = c.session.disposed ∧
      d.session.settings = c.session.settings ∧ d.session.lock = c.session.lock) ∨ c.Turned d := by
  cases moved with
  | same => exact .inl ⟨rfl, rfl, rfl, rfl⟩
  | asked _ => exact .inr (spawn_turned h _ _ _)
  | @resumed m cause _ resumes _ =>
    obtain ⟨e, sound, before, -, hcause, log, session⟩ := advance_turn h m.toTask cause
    refine .inr ⟨e, sound, before, ?_, log, session⟩
    rintro ⟨o, started⟩
    rw [← hcause, started] at resumes
    exact absurd resumes Next.Resumes.not_started
  | @atOnce turn hi =>
    have calm := calm_instant hi c.session
    exact .inl ⟨rfl, calm.disposed, calm.settings, instant_lock hi c.session⟩
  | host _ => exact .inl ⟨rfl, rfl, rfl, rfl⟩
  | @ran j _ _ _ =>
    rcases begin_turned h j.id none with same | turn
    · exact .inl (by rw [same]; exact ⟨rfl, rfl, rfl, rfl⟩)
    · exact .inr turn
  | @began _ run id clock _ _ =>
    rcases begin_turned (h.with_jobs c.jobs clock) id (some run) with same | turn
    · exact .inl (by rw [same]; exact ⟨rfl, rfl, rfl, rfl⟩)
    · exact .inr turn
  | stopped _ _ _ => exact .inl ⟨rfl, rfl, rfl, rfl⟩
  | ticked _ => exact .inl ⟨rfl, rfl, rfl, rfl⟩
  | woke _ _ => exact .inl ⟨rfl, rfl, rfl, rfl⟩

theorem moved_log {c d : Crowd} (h : c.Orderly) (moved : Moved c d) :
    (d.log = c.log ∧ d.session.disposed = c.session.disposed ∧
      d.session.settings = c.session.settings) ∨
    ∃ e, e.Sound ∧ e.before = c.session ∧ d.log = e :: c.log ∧
      d.session = { e.after with outbox := [] } := by
  rcases moved_turned h moved with ⟨log, disposed, settings, -⟩ | turned
  · exact .inl ⟨log, disposed, settings⟩
  · exact .inr turned.log

/-- What the log tells of disposals and settings. -/
structure Chronicle (c : Crowd) : Prop where
  disposed : c.session.disposed = true ↔ ∃ f ∈ c.log, f.cause = .started .dispose
  before : ∀ e early, e :: early <:+ c.log →
    (e.before.disposed = true ↔ ∃ f ∈ early, f.cause = .started .dispose)
  inRange : c.session.settings.passive.InRange
  ranges : ∀ e ∈ c.log, e.before.settings.passive.InRange

theorem chronicle_start (config : Config) (ownsRunner : Bool) :
    (start config ownsRunner).Chronicle where
  disposed := by simp [start, Session.start]
  before := by
    intro e early h
    cases List.suffix_nil.mp h
  inRange := PassiveSetting.inRange_default
  ranges := List.forall_mem_nil _

theorem moved_chronicle {c d : Crowd} (ho : c.Orderly) (h : c.Chronicle) (moved : Moved c d) :
    d.Chronicle := by
  rcases moved_log ho moved with ⟨log, disposed, settings⟩ | ⟨e, sound, before, log, session⟩
  · refine ⟨?_, ?_, ?_, ?_⟩
    · rw [log, disposed]
      exact h.disposed
    · rw [log]
      exact h.before
    · rw [settings]
      exact h.inRange
    · rw [log]
      exact h.ranges
  · have effect := sound.effect
    refine ⟨?_, ?_, ?_, ?_⟩
    · rw [log, session]
      change e.after.disposed = true ↔ _
      rw [effect.disposed_iff, before, h.disposed]
      simp [or_comm]
    · rw [log]
      intro f early hf
      rcases List.suffix_cons_iff.mp hf with hf | hf
      · cases hf
        rw [before]
        exact h.disposed
      · exact h.before f early hf
    · rw [session]
      apply effect.inRange
      rw [before]
      exact h.inRange
    · rw [log]
      refine List.forall_mem_cons.mpr ⟨?_, h.ranges⟩
      rw [before]
      exact h.inRange

theorem Reachable.chronicle {c : Crowd} (h : c.Reachable) : c.Chronicle :=
  h.induction chronicle_start fun c mv hr hc => moved_chronicle hr.orderly hc (step_moved c mv)

end Crowd
end BatteryLink
