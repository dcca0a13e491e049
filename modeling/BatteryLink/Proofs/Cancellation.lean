import BatteryLink.Proofs.Gate
import BatteryLink.Proofs.Runner
import BatteryLink.Proofs.Transactions
/-!
What a session cancels. It keeps a list of the polls that follow accepted orders and have not finished,
and its disposal cancels just these and the recurring poll. Nothing else ever cancels anything, and a
second disposal finds nothing left, unless an order was under way at the first.

A session that has a runner of its own also shuts it down. That ends whatever the runner still holds; it
is a matter of the runner and does not count as cancelling here.
-/
namespace BatteryLink

open Routine (Cause Ended Waits)
open Entrusted (beginAt)

namespace Routine

/-- A turn of an order that has been given to the device in part. -/
def Cause.Writes : Cause → Prop
  | .answered _ (.order _) _ | .rested _ => True
  | _ => False

theorem Next.Resumes.writes {next : Next} {c : Cause} (h : next.Resumes c) : c.Writes ↔ next.Writes := by
  cases next with
  | ask x k =>
    cases c with
    | answered now l a =>
      cases h
      cases k <;> exact Iff.rfl
    | started _ | rested _ | granted _ => exact h.elim
  | pause w => cases c <;> first | exact Iff.rfl | exact h.elim
  | queue k => cases c <;> first | exact Iff.rfl | exact h.elim
  | stopRunner | done _ => cases c <;> exact h.elim

theorem Next.Writes.order {next : Next} {o : Operation} (h : next.Writes) (serves : next.Serves o) :
    o.isOrder = true := by
  unfold Next.Writes at h
  split at h
  · exact serves.1
  · exact serves.1
  · exact h.elim

variable {self : TaskId} {s : Session} {p : Except Trouble Next × Session}

/-- Once the session has been disposed of, only orders go on that had been given to the device in part. -/
theorem Late.idle {c : Cause} {next : Next} (h : Late s c next) (idle : ¬ c.Writes) : ¬ next.Writes := by
  cases h with
  | slot _ | rest | answered => exact absurd trivial idle
  | connect | probe | queue | stopRunner | done => exact id

/-- An order that must not run is not accepted. -/
theorem Held.not_accepts {toggle : Option String} {n : Nat} {asks runs : Prop} {cut : Trouble → Prop}
    (h : Held toggle n asks runs cut s p) (still : ¬ runs) (o : Operation) : ¬ Accepts o p.1 := by
  cases h with
  | goes runs _ => exact absurd runs still
  | dropped _ => exact not_accepts_tally rfl
  | interrupted _ => exact not_accepts_error o _

theorem Begun.not_accepts {o : Operation} (h : Begun self o s p) (closed : s.disposed = true) :
    ¬ Accepts o p.1 := by
  cases h with
  | idle h =>
    rcases h with rfl | ⟨f, rfl⟩
    · rintro ⟨-, _, ⟨⟩, -⟩
    · exact not_accepts_error o _
  | wrote _ => rintro ⟨-, _, ⟨⟩, -⟩
  | ordered _ _ h =>
    cases h with
    | queued _ => exact not_accepts_of_waits nofun
    | held _ h => exact h.not_accepts (by simp [closed]) o
  | turnedDown => exact not_accepts_tally rfl
  | unheard _ => exact not_accepts_error o _

/-- Once the session has been disposed of, no order is accepted that had not been given to the device
in part. -/
theorem Effect.not_accepts {o : Operation} {c : Cause} (h : Effect self s c p) (serves : c.Serves o)
    (closed : s.disposed = true) (idle : ¬ c.Writes) : ¬ Accepts o p.1 := by
  cases h with
  | started h =>
    cases serves
    cases h with
    | order _ h => exact h.not_accepts closed
    | probed | greeted | ungreeted | closed => exact not_accepts_other rfl
  | polled _ h => exact h.not_accepts o
  | held hc h =>
    cases hc with
    | answered _ _ _ | rested _ => exact absurd trivial idle
    | granted k => exact h.not_accepts (by simp [closed]) o
  | probed hc _ =>
    rcases hc.serves serves with rfl | rfl <;> exact not_accepts_other rfl
  | polling _ =>
    cases serves
    exact not_accepts_other rfl

end Routine

def Notice.cancelled? : Notice → Option JobId
  | .cancelled id => some id
  | _ => none

/-- The poll that follows an order. -/
def Notice.refresh? : Notice → Option JobId
  | .scheduled id _ (.followUp _ _) => some id
  | _ => none

namespace Entry

variable {e : Entry}

/-- The jobs that a turn cancels, in the order in which it does. -/
def cancels (e : Entry) : List JobId := e.after.outbox.filterMap Notice.cancelled?

/-- The polls after orders that a turn leaves to the scheduler. -/
def refreshes (e : Entry) : List JobId := e.after.outbox.filterMap Notice.refresh?

theorem cancels_eq (e : Entry) : e.cancels = e.after.chores.filterMap Notice.cancelled? := by
  unfold cancels Session.chores
  rw [List.filterMap_filter]
  congr 1
  funext n
  cases n <;> rfl

theorem refreshes_eq (e : Entry) : e.refreshes = e.after.chores.filterMap Notice.refresh? := by
  unfold refreshes Session.chores
  rw [List.filterMap_filter]
  congr 1
  funext n
  cases n <;> rfl

/-- Whether a turn is the last one of the poll that follows an order. -/
def Finishes (e : Entry) (id : JobId) : Prop :=
  ∃ toggle, e.operation = .followUp id toggle ∧ Ended e.result

/-- An order leaves a poll to the scheduler when the device has accepted it, and nothing else does. -/
theorem Sound.refreshes (h : e.Sound) (serves : e.cause.Serves e.operation) :
    (e.Accepts ∧ e.refreshes = [e.before.nextJob]) ∨ (¬ e.Accepts ∧ e.refreshes = []) := by
  have upkeep := h.upkeep serves
  rw [refreshes_eq]
  unfold Accepts
  generalize e.after = u at upkeep
  cases upkeep with
  | same refused _ chores _ =>
    rw [chores]
    exact .inr ⟨refused, rfl⟩
  | planned accepts _ _ _ _ chores =>
    rw [chores]
    exact .inl ⟨accepts, rfl⟩
  | settled ho _ _ _ _ _ chores =>
    rw [chores, ho]
    exact .inr ⟨Routine.not_accepts_other rfl, rfl⟩
  | polling ho _ _ _ _ _ chores =>
    rw [chores, ho]
    exact .inr ⟨Routine.not_accepts_other rfl, rfl⟩
  | closed ho _ _ _ _ chores =>
    rw [chores, ho, List.filterMap_map]
    exact .inr ⟨Routine.not_accepts_other rfl, List.filterMap_eq_nil_iff.mpr fun _ _ => rfl⟩

/-- A turn puts what it plans after an order on the list, and takes the poll off that it ends. -/
theorem Sound.mem_pending (h : e.Sound) (serves : e.cause.Serves e.operation)
    (nodup : e.before.pending.Nodup) (live : e.after.disposed = false) (id : JobId) :
    id ∈ e.after.pending ↔ (id ∈ e.before.pending ∨ id ∈ e.refreshes) ∧ ¬ e.Finishes id := by
  have upkeep := h.upkeep serves
  rw [refreshes_eq]
  unfold Finishes
  generalize e.after = u at upkeep live
  generalize e.result = r at upkeep
  cases upkeep with
  | same _ keeps chores waits =>
    have goes : ¬ ∃ toggle, e.operation = .followUp id toggle ∧ Ended r :=
      fun ⟨toggle, op, ended⟩ => (waits ⟨id, toggle, op⟩).not_ended ended
    rw [chores, keeps.pending]
    simp [goes]
  | planned accepts _ _ pending _ chores =>
    have goes : ¬ ∃ toggle, e.operation = .followUp id toggle ∧ Ended r := by
      rintro ⟨toggle, op, -⟩
      rw [op] at accepts
      cases accepts.1
    rw [chores, pending]
    simp [goes, Routine.followUp, Notice.refresh?]
  | @settled _ _ last toggle ho ended _ _ pending _ chores =>
    have ends : (∃ toggle, e.operation = .followUp id toggle ∧ Ended r) ↔ id = last := by
      constructor
      · rintro ⟨toggle', op, -⟩
        cases ho.symm.trans op
        rfl
      · rintro rfl
        exact ⟨toggle, ho, ended⟩
    rw [chores, pending, nodup.mem_erase_iff, ends]
    simp [and_comm]
  | polling ho _ _ _ pending _ chores =>
    have goes : ¬ ∃ toggle, e.operation = .followUp id toggle ∧ Ended r := by
      rintro ⟨toggle, op, -⟩
      cases ho.symm.trans op
    rw [chores, pending]
    simp [goes, Notice.refresh?]
  | closed _ closed _ _ _ _ => cases live.symm.trans closed

theorem Sound.nextJob (h : e.Sound) (serves : e.cause.Serves e.operation) :
    e.before.nextJob ≤ e.after.nextJob := by
  have upkeep := h.upkeep serves
  generalize e.after = u at upkeep
  cases upkeep with
  | same _ keeps _ _ => exact Nat.le_of_eq keeps.nextJob.symm
  | planned _ _ _ _ nextJob _ | polling _ _ _ _ _ nextJob _ => exact nextJob ▸ Nat.le_succ _
  | settled _ _ _ _ _ nextJob _ | closed _ _ _ _ nextJob _ => exact Nat.le_of_eq nextJob.symm

/-- A disposal cancels what stands in the books of the session. -/
theorem Sound.disposal (h : e.Sound) (disposal : e.cause = .started .dispose) :
    e.after = e.before.closed ∧ e.cancels = e.before.upkeep := by
  have closed : e.after = e.before.closed := by
    rcases h.effect.calm with ⟨other, -⟩ | ⟨-, after⟩ | ⟨other, -⟩
    · exact absurd disposal other
    · exact after
    · exact absurd disposal other
  refine ⟨closed, ?_⟩
  unfold cancels
  rw [closed, Session.closed, h.swept, List.nil_append, List.filterMap_map]
  exact List.filterMap_some

/-- Nothing but a disposal cancels anything. -/
theorem Sound.cancels_other (h : e.Sound) (serves : e.cause.Serves e.operation)
    (other : e.cause ≠ .started .dispose) : e.cancels = [] := by
  have upkeep := h.upkeep serves
  rw [cancels_eq]
  generalize e.after = u at upkeep
  cases upkeep with
  | same _ _ chores _ | planned _ _ _ _ _ chores | settled _ _ _ _ _ _ chores | polling _ _ _ _ _ _ chores =>
    rw [chores]
    rfl
  | closed ho _ _ _ _ _ =>
    rw [ho] at serves
    exact absurd serves.dispose other

/-- Books that are empty after a disposal stay so, unless an order is accepted late. -/
theorem Sound.books_spent (h : e.Sound) (serves : e.cause.Serves e.operation) (idle : ¬ e.cause.Writes)
    (closed : e.before.disposed = true) (pollJob : e.before.pollJob = none) (pending : e.before.pending = []) :
    e.after.pollJob = none ∧ e.after.pending = [] := by
  have refused := h.effect.not_accepts serves closed idle
  have upkeep := h.upkeep serves
  generalize e.after = u at upkeep refused
  generalize e.result = r at upkeep refused
  cases upkeep with
  | same _ keeps _ _ => exact ⟨keeps.pollJob.trans pollJob, keeps.pending.trans pending⟩
  | planned accepts _ _ _ _ _ => exact absurd accepts refused
  | settled _ _ _ samePoll erased _ _ => exact ⟨samePoll.trans pollJob, by rw [erased, pending]; rfl⟩
  | polling _ live _ _ _ _ _ => cases live.symm.trans closed
  | closed _ _ none nil _ _ => exact ⟨none, nil⟩

end Entry

namespace Crowd

variable {b c d : Crowd} {e : Entry} {t : Task} {cause : Cause}

/-- Whether the poll that follows an order is over. -/
def Over (c : Crowd) (id : JobId) : Prop := ∃ x ∈ c.endings, ∃ toggle, x.operation = .followUp id toggle

/-- A move without a turn. -/
structure Idled (c d : Crowd) : Prop where
  log : d.log = c.log
  disposed : d.session.disposed = c.session.disposed
  pollJob : d.session.pollJob = c.session.pollJob
  pending : d.session.pending = c.session.pending
  nextJob : c.session.nextJob ≤ d.session.nextJob
  members : ∀ m ∈ d.members, m ∈ c.members
  ended : ∀ id, d.Over id ↔ c.Over id

/-- A move with a turn, after which its task waits or has ended. -/
structure Took (c d : Crowd) (e : Entry) : Prop where
  sound : e.Sound
  before : e.before = c.session
  log : d.log = e :: c.log
  session : d.session = { e.after with outbox := [] }
  serves : e.cause.Serves e.operation
  goes : (∃ o, e.cause = .started o) ∨ ∃ m ∈ c.members, m.waits.Resumes e.cause
  followUp : ∀ id toggle, e.operation = .followUp id toggle → id < c.session.nextJob
  rest : (Waits e.result ∧ d.endings = c.endings ∧
      ∀ m ∈ d.members, m ∈ c.members ∨ e.result = .ok m.waits) ∨
    ∃ x, x.operation = e.operation ∧ Ends e.result x.result ∧ d.endings = x :: c.endings ∧
      ∀ m ∈ d.members, m ∈ c.members

theorem Took.congr (h : b.Took d e) (session : b.session = c.session) (log : b.log = c.log)
    (members : b.members = c.members) (endings : b.endings = c.endings) : c.Took d e := by
  obtain ⟨sound, before, log', session', serves, goes, followUp, rest⟩ := h
  rw [session] at before followUp
  rw [log] at log'
  rw [members] at goes rest
  rw [endings] at rest
  exact ⟨sound, before, log', session', serves, goes, followUp, rest⟩

theorem advance_took (ho : c.Orderly) (hk : c.Kept) (assigned : t.Assigned c.jobs)
    (serves : cause.Serves t.operation)
    (goes : (∃ o, cause = .started o) ∨ ∃ m ∈ c.members, m.waits.Resumes cause) :
    ∃ e, e.cause = cause ∧ c.Took (c.advance t cause) e := by
  obtain ⟨e, task, operation, hcause, before, exec, jobs, clock, rest⟩ := advance_eq c t cause
  have sound : e.Sound := ⟨by rw [task, hcause, before]; exact exec, by rw [before]; exact ho.swept⟩
  have followUp : ∀ id toggle, e.operation = .followUp id toggle → id < c.session.nextJob := by
    intro id toggle op
    obtain ⟨j, hj, rfl, -⟩ := assigned.known id (assigned.followUp id toggle (operation ▸ op))
    exact hk.books.fresh j hj
  rw [← hcause] at serves goes
  rw [← operation] at serves
  refine ⟨e, hcause, ?_⟩
  rcases rest with ⟨next, hr, hn, eq⟩ | ⟨out, ends, eq⟩
  · refine ⟨sound, before, by rw [eq], by rw [eq], serves, goes, followUp, .inl ⟨⟨next, hr, hn⟩, by rw [eq], ?_⟩⟩
    rw [eq]
    intro m hm
    rcases List.mem_cons.mp hm with rfl | old
    · exact .inr hr
    · exact .inl (mem_others.mp old).1
  · refine ⟨sound, before, by rw [eq], by rw [eq], serves, goes, followUp,
      .inr ⟨_, operation.symm, ends, by rw [eq], ?_⟩⟩
    rw [eq]
    exact fun m hm => (mem_others.mp hm).1

theorem begin_took (ho : c.Orderly) (hk : c.Kept) (id : JobId) (run : Option RunId) :
    c.begin id run = c ∨ ∃ e, c.Took (c.begin id run) e := by
  unfold begin
  split
  · exact .inl rfl
  · next j hj =>
    obtain ⟨-, rfl⟩ := job?_eq_some hj
    obtain ⟨begun, assigned⟩ := hk.begins hj c.nextTask run
    have later : Kept { c with jobs := beginAt c.jobs j.id, nextTask := c.nextTask + 1 } :=
      ⟨begun.books, begun.assigned⟩
    have serves : (Cause.started j.job.operation).Serves j.job.operation := rfl
    obtain ⟨e, -, took⟩ := advance_took (ho.with_jobs (beginAt c.jobs j.id) c.clock).later later assigned serves
      (.inl ⟨_, rfl⟩)
    exact .inr ⟨e, took.congr rfl rfl rfl rfl⟩

theorem spawn_took (ho : c.Orderly) (hk : c.Kept) {o : Operation} (offered : isOffered o = true) :
    ∃ e, e.cause = .started o ∧ c.Took (c.spawn o none none) e := by
  have later : Kept { c with nextTask := c.nextTask + 1 } := ⟨hk.books, hk.assigned⟩
  have assigned : Task.Assigned ⟨c.nextTask, o, none, none⟩ c.jobs := by
    refine ⟨fun id toggle op => ?_, nofun⟩
    have op : o = .followUp id toggle := op
    rw [op] at offered
    cases offered
  have serves : (Cause.started o).Serves o := rfl
  obtain ⟨e, hcause, took⟩ := advance_took ho.later later assigned serves (.inl ⟨_, rfl⟩)
  exact ⟨e, hcause, took.congr rfl rfl rfl rfl⟩

theorem Idled.of_keeps (log : d.log = c.log) (keeps : c.session.Keeps d.session)
    (members : d.members = c.members) (endings : d.endings = c.endings) : c.Idled d where
  log := log
  disposed := keeps.disposed
  pollJob := keeps.pollJob
  pending := keeps.pending
  nextJob := Nat.le_of_eq keeps.nextJob.symm
  members := fun _ hm => members ▸ hm
  ended := fun id => by
    unfold Over
    rw [endings]

theorem Idled.refl (c : Crowd) : c.Idled c := .of_keeps rfl (.refl _) rfl rfl

/-- Every move is one turn or none. -/
theorem moved_took (ho : c.Orderly) (hk : c.Kept) (moved : Moved c d) : c.Idled d ∨ ∃ e, c.Took d e := by
  cases moved with
  | same => exact .inl (.refl c)
  | asked offered =>
    obtain ⟨e, -, took⟩ := spawn_took ho hk offered
    exact .inr ⟨e, took⟩
  | resumed hm hw _ =>
    obtain ⟨e, -, took⟩ := advance_took ho hk (hk.assigned _ hm) (hw.serves (ho.serves hm)) (.inr ⟨_, hm, hw⟩)
    exact .inr ⟨e, took⟩
  | @atOnce turn hi =>
    obtain ⟨job, -, hu⟩ := exec_instant hi c.session
    refine .inl ?_
    unfold atOnce
    rw [hu]
    split
    · exact .of_keeps rfl ⟨rfl, rfl, rfl, rfl⟩ rfl rfl
    · exact ⟨rfl, rfl, rfl, rfl, Nat.le_succ _, fun _ => id, fun _ => Iff.rfl⟩
  | host _ => exact .inl (.of_keeps rfl ⟨rfl, rfl, rfl, rfl⟩ rfl rfl)
  | @ran j _ _ _ =>
    rcases begin_took ho hk j.id none with same | took
    · rw [same]
      exact .inl (.refl c)
    · exact .inr took
  | @began _ run id clock _ _ =>
    rcases begin_took (ho.with_jobs c.jobs clock) (hk.with_clock clock) id (some run) with same | ⟨e, took⟩
    · rw [same]
      exact .inl (.of_keeps rfl (.refl _) rfl rfl)
    · exact .inr ⟨e, took.congr rfl rfl rfl rfl⟩
  | @stopped _ m clock _ hm hw =>
    have op : m.operation = .dispose := by
      have serves := ho.serves hm
      rwa [hw] at serves
    refine .inl ⟨rfl, rfl, rfl, rfl, Nat.le_refl _, fun n hn => (mem_others.mp hn).1, fun id => ?_⟩
    constructor
    · rintro ⟨x, hx, toggle, followUp⟩
      rcases List.mem_cons.mp hx with rfl | hx
      · cases op.symm.trans followUp
      · exact ⟨x, hx, toggle, followUp⟩
    · rintro ⟨x, hx, rest⟩
      exact ⟨x, List.mem_cons_of_mem _ hx, rest⟩
  | ticked _ => exact .inl (.of_keeps rfl (.refl _) rfl rfl)
  | woke _ _ => exact .inl (.of_keeps rfl (.refl _) rfl rfl)

/-- Who waits after a turn waited before it, or has had the turn. -/
theorem Took.member (took : c.Took d e) {m : Member} (hm : m ∈ d.members) :
    m ∈ c.members ∨ e.result = .ok m.waits := by
  rcases took.rest with ⟨-, -, members⟩ | ⟨-, -, -, -, members⟩
  · exact members m hm
  · exact .inl (members m hm)

/-- The poll with this number was planned after an order, and it is not over. -/
def Outstanding (c : Crowd) (id : JobId) : Prop := (∃ e ∈ c.log, id ∈ e.refreshes) ∧ ¬ c.Over id

/-- The list of a session holds the polls after orders that are not over. -/
structure Booked (c : Crowd) : Prop where
  past : ∀ id, c.Over id → id < c.session.nextJob
  pending : c.session.disposed = false → ∀ id, id ∈ c.session.pending ↔ c.Outstanding id

/-- A poll is over with its last turn. -/
theorem Took.over_iff (took : c.Took d e) (id : JobId) : d.Over id ↔ c.Over id ∨ e.Finishes id := by
  unfold Over
  rcases took.rest with ⟨waits, endings, -⟩ | ⟨x, op, ends, endings, -⟩
  · rw [endings, or_iff_left fun ⟨_, _, ended⟩ => waits.not_ended ended]
  · have last : (∃ toggle, x.operation = .followUp id toggle) ↔ e.Finishes id := by
      rw [op]
      refine ⟨fun ⟨toggle, followUp⟩ => ⟨toggle, followUp, fun next hr => ?_⟩,
        fun ⟨toggle, followUp, _⟩ => ⟨toggle, followUp⟩⟩
      have serves := (took.sound.effect.course took.serves next hr).1
      rw [hr] at ends
      generalize x.result = out at ends
      cases ends with
      | done o => exact ⟨o, rfl⟩
      | stopped => cases serves.symm.trans followUp
    rw [endings, List.exists_mem_cons_iff, last, or_comm]

theorem took_booked (hk : c.Kept) (h : c.Booked) (took : c.Took d e) : d.Booked where
  past := by
    intro id ended
    have later : c.session.nextJob ≤ d.session.nextJob := by
      rw [took.session, ← took.before]
      exact took.sound.nextJob took.serves
    rcases (took.over_iff id).mp ended with old | ⟨toggle, op, -⟩
    · exact Nat.lt_of_lt_of_le (h.past id old) later
    · exact Nat.lt_of_lt_of_le (took.followUp id toggle op) later
  pending := by
    rw [took.session]
    intro (live : e.after.disposed = false) id
    have before := h.pending (took.before ▸ took.sound.open_before live) id
    have fresh : id ∈ e.refreshes → ¬ c.Over id := by
      intro planned ended
      rcases took.sound.refreshes took.serves with ⟨-, one⟩ | ⟨-, none⟩
      · rw [one, took.before] at planned
        exact Nat.ne_of_lt (h.past id ended) (List.mem_singleton.mp planned)
      · rw [none] at planned
        cases planned
    change id ∈ e.after.pending ↔ _
    rw [took.sound.mem_pending took.serves (took.before ▸ hk.books.nodup) live, took.before, before]
    unfold Outstanding
    rw [took.over_iff, took.log, List.exists_mem_cons_iff, not_or, ← and_assoc]
    refine and_congr_left fun _ => ?_
    rw [or_and_right, and_iff_left_of_imp fresh, or_comm]

theorem moved_booked (ho : c.Orderly) (hk : c.Kept) (h : c.Booked) (moved : Moved c d) : d.Booked := by
  rcases moved_took ho hk moved with idled | ⟨e, took⟩
  · refine ⟨fun id ended => Nat.lt_of_lt_of_le (h.past id ((idled.ended id).mp ended)) idled.nextJob, ?_⟩
    unfold Outstanding
    rw [idled.disposed, idled.pending, idled.log]
    intro live id
    rw [idled.ended]
    exact h.pending live id
  · exact took_booked hk h took

theorem booked_start (config : Config) (ownsRunner : Bool) : (start config ownsRunner).Booked where
  past := by
    rintro id ⟨x, hx, -⟩
    cases hx
  pending := by simp [start, Session.start, Outstanding]

theorem Reachable.booked (h : c.Reachable) : c.Booked :=
  h.induction booked_start fun c mv hr hc => moved_booked hr.orderly hr.kept hc (step_moved c mv)

/-- The session is disposed of, its books are empty, and no order is given to the device in part. -/
structure Spent (c : Crowd) : Prop where
  disposed : c.session.disposed = true
  pollJob : c.session.pollJob = none
  pending : c.session.pending = []
  idle : ∀ m ∈ c.members, ¬ m.waits.Writes

theorem took_spent (h : c.Spent) (took : c.Took d e) : d.Spent ∧ e.cancels = [] := by
  have idle : ¬ e.cause.Writes := by
    rcases took.goes with ⟨o, started⟩ | ⟨m, hm, resumes⟩
    · rw [started]
      exact id
    · rw [resumes.writes]
      exact h.idle m hm
  have closed : e.before.disposed = true := took.before ▸ h.disposed
  have sound := took.sound
  have books : e.after.pollJob = none ∧ e.after.pending = [] :=
    sound.books_spent took.serves idle closed (took.before ▸ h.pollJob) (took.before ▸ h.pending)
  refine ⟨⟨?_, ?_, ?_, ?_⟩, ?_⟩
  · rw [took.session]
    exact sound.effect.disposed_iff.mpr (.inl closed)
  · rw [took.session]
    exact books.1
  · rw [took.session]
    exact books.2
  · intro m hm
    rcases took.member hm with old | waits
    · exact h.idle m old
    · exact (sound.effect.late closed waits).idle idle
  · by_cases disposal : e.cause = .started .dispose
    · rw [(sound.disposal disposal).2, took.before]
      simp [Session.upkeep, h.pollJob, h.pending]
    · exact sound.cancels_other took.serves disposal

/-- From then on nothing is cancelled. -/
theorem run_spent (hc : c.Reachable) (h : c.Spent) (moves : List Move) :
    ∃ late, (c.run moves).log = late ++ c.log ∧ ∀ f ∈ late, f.cancels = [] := by
  induction moves generalizing c with
  | nil => exact ⟨[], rfl, List.forall_mem_nil _⟩
  | cons mv moves ih =>
    rcases moved_took hc.orderly hc.kept (step_moved c mv) with idled | ⟨e, took⟩
    · have spent : (c.step mv).Spent :=
        ⟨idled.disposed.trans h.disposed, idled.pollJob.trans h.pollJob, idled.pending.trans h.pending,
          fun m hm => h.idle m (idled.members m hm)⟩
      obtain ⟨late, log, quiet⟩ := ih (hc.step mv) spent
      exact ⟨late, log.trans (congrArg _ idled.log), quiet⟩
    · obtain ⟨spent, none⟩ := took_spent h took
      obtain ⟨late, log, quiet⟩ := ih (hc.step mv) spent
      refine ⟨late ++ [e], ?_, List.forall_mem_append.mpr ⟨quiet, List.forall_mem_singleton.mpr none⟩⟩
      rw [List.append_assoc, List.singleton_append, ← took.log]
      exact log

/-- A disposal without an order under way empties the books for good. -/
theorem disposal_spent (took : c.Took d e) (disposal : e.cause = .started .dispose)
    (still : ∀ m ∈ c.members, m.operation.isOrder = false) (ho : c.Orderly) : d.Spent := by
  obtain ⟨closed, -⟩ := took.sound.disposal disposal
  have op : e.operation = .dispose := by
    have serves := took.serves
    rw [disposal] at serves
    exact serves.symm
  refine ⟨?_, ?_, ?_, ?_⟩
  · rw [took.session, closed]
    rfl
  · rw [took.session, closed]
    rfl
  · rw [took.session, closed]
    rfl
  · intro m hm writes
    rcases took.member hm with old | waits
    · exact Bool.false_ne_true ((still m old).symm.trans (writes.order (ho.serves old)))
    · have serves := (took.sound.effect.course took.serves _ waits).1
      rw [op] at serves
      cases writes.order serves

/-- The recurring poll that was planned last. -/
def Recurring (c : Crowd) (id : JobId) : Prop :=
  ∃ j ∈ c.jobs, j.id = id ∧ j.plan.recurs = true ∧ Latest c.jobs id

/-- While a session is not disposed of, each order that the device accepts has left one poll to the
scheduler, and in whichever order these polls run and however they end, the session keeps those that
are not over, each once. Nothing has been cancelled so far. A disposal cancels what it keeps and the
recurring poll, each once; and if no order is under way, nothing is ever cancelled after that. -/
theorem dispose_cancels (hc : c.Reachable) (live : c.session.disposed = false) :
    (∀ e ∈ c.log, (e.Accepts ∧ e.refreshes = [e.before.nextJob]) ∨ (¬ e.Accepts ∧ e.refreshes = [])) ∧
    c.session.pending.Nodup ∧ (∀ id, id ∈ c.session.pending ↔ c.Outstanding id) ∧
    (∀ e ∈ c.log, e.cancels = []) ∧
    ∃ e, (c.step (.start .dispose)).log = e :: c.log ∧ e.cause = .started .dispose ∧
      e.cancels.Nodup ∧ (∀ id, id ∈ e.cancels ↔ c.Recurring id ∨ c.Outstanding id) ∧
      ((∀ m ∈ c.members, m.operation.isOrder = false) → ∀ moves, ∃ late,
        ((c.step (.start .dispose)).run moves).log = late ++ e :: c.log ∧ ∀ f ∈ late, f.cancels = []) := by
  have ho := hc.orderly
  have books := hc.kept.books
  have pending := hc.booked.pending live
  refine ⟨fun e he => (ho.sound e he).refreshes (ho.served he), books.nodup, pending, ?_, ?_⟩
  · intro e he
    refine (ho.sound e he).cancels_other (ho.served he) fun disposal => ?_
    have closed := hc.chronicle.disposed.mpr ⟨e, he, disposal⟩
    exact Bool.false_ne_true (live.symm.trans closed)
  · obtain ⟨e, disposal, took⟩ := spawn_took ho hc.kept (o := .dispose) rfl
    have cancels : e.cancels = c.session.upkeep := took.before ▸ (took.sound.disposal disposal).2
    refine ⟨e, took.log, disposal, ?_, fun id => ?_, fun still moves => ?_⟩
    · rw [cancels]
      exact books.nodup_upkeep
    · rw [cancels, Session.Books.mem_upkeep, books.pollJob, pending, and_iff_right live]
      rfl
    · have spent := disposal_spent took disposal still ho
      obtain ⟨late, log, quiet⟩ := run_spent (hc.step (.start .dispose)) spent moves
      exact ⟨late, log.trans (congrArg _ took.log), quiet⟩

/-- The device does not answer the first probe, accepts two orders, and does not answer the poll after
the first of them. -/
def twiceAccepted : List Move :=
  [.start .connect, .answer 0 ⟨0⟩ (.ok none),
    .start (.command "modeSelect" (.text "Auto")),
    .answer 1 ⟨0⟩ (.ok (some "\x7b\"id\":0,\"result\":\x7b\"set_result\":true\x7d\x7d".toUTF8.toList)),
    .start (.command "modeSelect" (.text "AI")),
    .answer 2 ⟨0⟩ (.ok (some "\x7b\"id\":0,\"result\":\x7b\"set_result\":true\x7d\x7d".toUTF8.toList)),
    .run 2, .answer 3 ⟨0⟩ (.ok none)]

/-- Of the two polls only the second one is left to cancel. -/
theorem dispose_cancels_twiceAccepted :
    let c := (start { host := "10.0.0.2" } false).run twiceAccepted
    c.session.disposed = false ∧ c.Over 2 ∧ c.Outstanding 3 ∧
      ∃ e, (c.step (.start .dispose)).log = e :: c.log ∧ e.cancels.Nodup ∧
        (∀ id, id ∈ e.cancels ↔ c.Recurring id ∨ id = 3) ∧
        ∀ moves, ∃ late, ((c.step (.start .dispose)).run moves).log = late ++ e :: c.log ∧
          ∀ f ∈ late, f.cancels = [] := by
  intro c
  have reachable : c.Reachable := ⟨_, _, _, rfl⟩
  have live : c.session.disposed = false := by decide +kernel
  have listed : c.session.pending = [3] := by decide +kernel
  have still : c.members = [] := List.isEmpty_iff.mp (by decide +kernel)
  have planned : (c.log.any fun e => e.refreshes.contains 2) = true := by decide +kernel
  obtain ⟨-, -, pending, -, e, log, -, nodup, cancels, quiet⟩ := dispose_cancels reachable live
  have one : ∀ id, c.Outstanding id ↔ id = 3 := fun id => by
    rw [← pending, listed, List.mem_singleton]
  refine ⟨live, ?_, (one 3).mpr rfl, e, log, nodup, fun id => ?_, quiet fun m hm => ?_⟩
  · obtain ⟨f, hf, two⟩ := List.any_eq_true.mp planned
    by_contra unfinished
    exact absurd ((one 2).mp ⟨⟨f, hf, List.contains_iff_mem.mp two⟩, unfinished⟩) (by decide)
  · rw [cancels, one]
  · rw [still] at hm
    cases hm

end Crowd
end BatteryLink
