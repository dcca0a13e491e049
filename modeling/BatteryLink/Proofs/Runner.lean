import BatteryLink.Proofs.Jobs
import BatteryLink.Proofs.Shutdown
/-!
The runner that belongs to a session. It has a handle for each job that it has got, and at the end
of a disposal nothing is left of the handles that were there before.
-/
namespace BatteryLink

open Routine (Cause Next Effect Upkeep)
open Entrusted (Marks finishAt beginAt)

/-- What a scheduler gets after a turn: a job with the next number, or jobs to cancel. -/
inductive Errands (id : JobId) : List Notice → Prop
  | none : Errands id []
  | planned (plan : Plan) (job : Job) : Errands id [.scheduled id plan job]
  | cancelled (ids : List JobId) : Errands id (ids.map .cancelled)

theorem Routine.Upkeep.errands {o : Operation} {s u : Session} {r : Except Trouble Next}
    (h : Upkeep o s (r, u)) : Errands s.nextJob u.chores := by
  cases h with
  | same _ _ chores _ => exact chores ▸ .none
  | planned _ _ _ _ _ chores => exact chores ▸ .planned _ _
  | settled _ _ _ _ _ _ chores => exact chores ▸ .none
  | polling _ _ _ _ _ _ chores => exact chores ▸ .planned _ _
  | closed _ _ _ _ _ chores => exact chores ▸ .cancelled _

/-- The jobs that were planned before the session was disposed of. -/
def Olds (jobs : List Entrusted) (id : JobId) : Prop := ∃ j ∈ jobs, j.id = id ∧ j.late = false

theorem Entrusted.Marks.olds {f : Entrusted → Entrusted} (h : Marks f) (jobs : List Entrusted)
    (id : JobId) : Olds (jobs.map f) id ↔ Olds jobs id := by
  unfold Olds
  simp only [List.mem_map, exists_exists_and_eq_and, h.id, h.late]

theorem Errands.olds {id : JobId} {ns : List Notice} (h : Errands id ns) (jobs : List Entrusted)
    {i : JobId} (hi : Olds (ns.foldl (Entrusted.heed true) jobs) i) : Olds jobs i := by
  cases h with
  | none => exact hi
  | planned plan job =>
    obtain ⟨j, hj, rest⟩ := hi
    rcases List.mem_cons.mp hj with rfl | hj
    · cases rest.2
    · exact ⟨j, hj, rest⟩
  | cancelled ids =>
    rw [Entrusted.foldl_heed_cancelled] at hi
    obtain ⟨f, marks, eq, -⟩ := Entrusted.cancelAt_eq jobs ids
    rw [eq, marks.olds] at hi
    exact hi

namespace Clockwork

variable {new : HandleId → Plan → Prop} {w : Clockwork}

theorem foldl_heed_chores (w : Clockwork) (ns : List Notice) :
    ns.foldl heed w = (ns.filter Notice.isChore).foldl heed w := by
  rw [List.foldl_filter]
  congr 1
  funext w n
  cases n <;> rfl

theorem ticks_errands {id : JobId} {ns : List Notice} (h : Errands id ns)
    (hn : ∀ plan job, .scheduled id plan job ∈ ns → new id plan)
    (fresh : ∀ x ∈ w.runner.handles, x.id ≠ id) : Ticks new w (ns.foldl heed w) := by
  cases h with
  | none => exact .refl
  | planned plan job => exact ticks_launch plan (hn plan job List.mem_cons_self) fresh
  | cancelled ids =>
    clear hn fresh
    induction ids generalizing w with
    | nil => exact .refl
    | cons i ids ih => exact (ticks_cancel i).trans ih

/-- Whatever ticks: handles are old ones or new ones. -/
theorem Ticks.ids {v : Clockwork} (t : Ticks new w v) :
    ∀ x ∈ v.runner.handles,
      new x.id x.plan ∨ ∃ y ∈ w.runner.handles, y.id = x.id ∧ y.plan = x.plan := by
  induction t with
  | refl => exact fun x hx => .inr ⟨x, hx, rfl, rfl⟩
  | @tail u v _ t ih =>
    have kept : ∀ y : Handle, (∃ x ∈ u.runner.handles, x.id = y.id ∧ x.plan = y.plan) →
        ∀ z ∈ (u.runner.setHandle y).handles,
          new z.id z.plan ∨ ∃ x ∈ w.runner.handles, x.id = z.id ∧ x.plan = z.plan := by
      rintro y ⟨x, hx, id, plan⟩ z hz
      rcases mem_setHandle hz with rfl | ⟨hz, -⟩
      · exact id ▸ plan ▸ ih x hx
      · exact ih z hz
    cases t with
    | calls _ _ | sleeps _ | rouses _ _ | takes _ _ _ | runEnds _ _ | forgetsHandle _ | forgetsRun _ => exact ih
    | launches plan hn _ =>
      intro x hx
      rcases List.mem_append.mp hx with hx | hx
      · exact ih x hx
      · rw [List.mem_singleton.mp hx]
        exact .inl hn
    | marks hx _ goes => exact kept _ ⟨_, hx, goes.id.symm, goes.plan.symm⟩
    | ends _ hx _ _ => exact kept _ ⟨_, hx, rfl, rfl⟩
    | starts hx _ _ _ => exact kept _ ⟨_, hx, rfl, rfl⟩

theorem Ticks.winding {old : HandleId → Prop} {v : Clockwork} (t : Ticks new w v) (sound : w.Sound)
    (h : w.Winding old) (fresh : ∀ id plan, new id plan → ¬ old id) : v.Winding old := by
  induction t with
  | refl => exact h
  | tail ts t ih => exact t.winding (Ticks.sound ts sound) ih fresh

theorem Ticks.gone {old : HandleId → Prop} {v : Clockwork} (t : Ticks new w v) (sound : w.Sound)
    (h : Gone old w.runner) (fresh : ∀ id plan, new id plan → ¬ old id) : Gone old v.runner := by
  induction t with
  | refl => exact h
  | tail ts t ih => exact ih.tick t (Ticks.sound ts sound) fresh

theorem Ticks.quiet {v : Clockwork} (t : Ticks new w v) (sound : w.Sound) (h : w.Quiet) : v.Quiet := by
  induction t with
  | refl => exact h
  | tail ts t ih => exact t.quiet (Ticks.sound ts sound) ih

/-- A call that has its turn comes before all that have to wait for fewer turns. -/
theorem take?_eq {i : Nat} {call : RunnerCall TaskId} {v : Clockwork} (h : w.take? i = some (call, v)) :
    ∃ pre n post, w.ready = pre ++ (n, call) :: post ∧ v = { w with ready := pre ++ post } ∧
      ∀ c ∈ pre, n < c.1 := by
  unfold take? at h
  split at h
  · cases h
  · next turns first rest hd =>
    split at h
    · next all =>
      cases h
      refine ⟨w.ready.take i, turns, rest, ?_, rfl, ?_⟩
      · rw [← hd, List.take_append_drop]
      · exact fun c hc => of_decide_eq_true (List.all_eq_true.mp all c hc)
    · cases h

theorem ticks_take {i : Nat} {call : RunnerCall TaskId} {v : Clockwork}
    (h : w.take? i = some (call, v)) :
    Ticks new w (v.after (v.runner.deliver call).1 (v.runner.deliver call).2) := by
  obtain ⟨pre, n, post, heq, rfl, -⟩ := take?_eq h
  cases call with
  | wake id => exact .head (.takes heq nofun nofun) (ticks_wake id)
  | begin run =>
    unfold Runner.deliver
    rw [after_none]
    exact .single (.takes heq nofun nofun)
  | stopped who =>
    unfold Runner.deliver
    rw [after_none]
    exact .single (.takes heq nofun nofun)
  | forgetHandle id =>
    unfold Runner.deliver
    rw [after_none]
    exact .single (.forgetsHandle heq)
  | forgetRun run =>
    unfold Runner.deliver
    rw [after_none]
    exact .single (.forgetsRun heq)

theorem ticks_rouse (i turns : Nat) : Ticks new w (w.wake i turns) := by
  unfold wake
  split
  · exact .refl
  · next call hc =>
    obtain ⟨hi, rfl⟩ := List.getElem?_eq_some_iff.mp hc
    have split : w.asleep = w.asleep.take i ++ w.asleep[i] :: w.asleep.drop (i + 1) := by
      rw [List.getElem_cons_drop, List.take_append_drop]
    rw [List.eraseIdx_eq_take_drop_succ]
    exact .single (.rouses turns split)

end Clockwork

namespace Routine

variable {self : TaskId} {s : Session} {p : Except Trouble Next × Session}

theorem Effect.ownsRunner {c : Cause} (h : Effect self s c p) : p.2.ownsRunner = s.ownsRunner := by
  rcases h.calm with ⟨-, calm⟩ | ⟨-, hp⟩ | ⟨-, t, rfl, -⟩
  · exact calm.ownsRunner
  · rw [hp]
    rfl
  · rfl

theorem Cause.Serves.dispose {c : Cause} (h : c.Serves .dispose) : c = .started .dispose := by
  cases c with
  | started o =>
    cases h
    rfl
  | answered now k a =>
    cases k with
    | firstProbe => cases h
    | probe => cases h
    | poll stage purpose => cases h
    | order stage => cases h.1
  | rested w => cases h.1
  | granted k => cases h.1

/-- The disposal is the only turn after which a task waits for the end of the runner. -/
theorem Effect.stops_iff {c : Cause} {o : Operation} (h : Effect self s c p) (serves : c.Serves o)
    (own : s.ownsRunner = true) : p.1 = .ok .stopRunner ↔ o = .dispose := by
  constructor
  · intro hr
    exact (h.course serves _ hr).1
  · rintro rfl
    cases serves.dispose
    cases h with
    | started h =>
      cases h with
      | order ho _ => cases ho
      | closed =>
        rw [own]
        rfl
    | polled hp _ => cases hp
    | held hc _ => cases hc
    | probed hc _ => cases hc

/-- Without a runner of its own a session has none to stop. -/
theorem Effect.never_stops {c : Cause} {o : Operation} (h : Effect self s c p) (serves : c.Serves o)
    (hosted : s.ownsRunner = false) : p.1 ≠ .ok .stopRunner := by
  intro hr
  have op : o = .dispose := (h.course serves _ hr).1
  cases op
  cases serves.dispose
  cases h with
  | started h =>
    cases h with
    | order ho _ => cases ho
    | closed =>
      rw [hosted] at hr
      cases hr
  | polled hp _ => cases hp
  | held hc _ => cases hc
  | probed hc _ => cases hc

end Routine

namespace Crowd

open Clockwork (Ticks Winding Gone Hushed Quiet)

/-- Jobs that were planned before the session was disposed of, once it has been. -/
def old (c : Crowd) (id : HandleId) : Prop := c.session.disposed = true ∧ Olds c.jobs id

/-- The runner of a session has a handle for some of its jobs. Nobody shuts it down before the
session is disposed of; then everything old is wound up, and at the end of the disposal it is gone. -/
structure Clocked (c : Crowd) : Prop where
  sound : c.clock.Sound
  known : ∀ x ∈ c.clock.runner.handles, ∃ j ∈ c.jobs, j.id = x.id ∧ j.plan = x.plan
  quiet : c.session.disposed = false → c.clock.Quiet
  winding : c.clock.Winding c.old
  gone : (∃ x ∈ c.endings, x.operation = .dispose) → Gone c.old c.clock.runner

def New (c d : Crowd) (id : HandleId) (plan : Plan) : Prop :=
  (∃ j ∈ d.jobs, j.id = id ∧ j.plan = plan) ∧ ¬ ∃ j ∈ c.jobs, j.id = id

theorem known_of_ticks {c d : Crowd} {clock : Clockwork} (t : Ticks (New c d) c.clock clock)
    (known : ∀ x ∈ c.clock.runner.handles, ∃ j ∈ c.jobs, j.id = x.id ∧ j.plan = x.plan)
    (grows : Grows c.jobs d.jobs) :
    ∀ x ∈ clock.runner.handles, ∃ j ∈ d.jobs, j.id = x.id ∧ j.plan = x.plan := by
  intro x hx
  rcases t.ids x hx with new | ⟨y, hy, id, plan⟩
  · exact new.1
  · obtain ⟨i, hi, hid, hplan⟩ := known y hy
    obtain ⟨j, hj, stays⟩ := grows i hi
    exact ⟨j, hj, stays.id.trans (hid.trans id), stays.plan.trans (hplan.trans plan)⟩

/-- Whatever the runner does between disposals keeps its clock in order. -/
theorem Clocked.ticks {c d : Crowd} (h : c.Clocked) (t : Ticks (New c d) c.clock d.clock)
    (disposed : d.session.disposed = c.session.disposed)
    (grows : Grows c.jobs d.jobs) (olds : ∀ id, d.old id → c.old id)
    (endings : (∃ x ∈ d.endings, x.operation = .dispose) → ∃ x ∈ c.endings, x.operation = .dispose) :
    d.Clocked := by
  have fresh : ∀ id plan, New c d id plan → ¬ c.old id := by
    rintro id plan ⟨-, none⟩ ⟨-, j, hj, he, -⟩
    exact none ⟨j, hj, he⟩
  refine ⟨t.sound h.sound, fun x hx => ?_, fun hd => t.quiet h.sound (h.quiet (disposed ▸ hd)),
    (t.winding h.sound h.winding fresh).mono olds, fun he => ?_⟩
  · exact known_of_ticks t h.known grows x hx
  · have gone := t.gone h.sound (h.gone (endings he)) fresh
    exact ⟨fun id hid ho => gone.handles id hid (olds id ho), fun r hr ho => gone.runs r hr (olds _ ho)⟩

theorem finish_ticks (new : HandleId → Plan → Prop) (c : Crowd) (t : Task) (r : Except Trouble Outcome) :
    Ticks new c.clock (c.finish t r).clock := by
  unfold finish
  dsimp only
  split
  · exact .refl
  · exact .single (Clockwork.tick_endRun _)

/-- The crowd after a turn, before the task goes on. -/
def turned (c : Crowd) (t : Task) (cause : Cause) : Crowd :=
  { c with log := c.entry t cause :: c.log }.adopt (c.entry t cause).after

theorem turned_jobs (c : Crowd) (t : Task) (cause : Cause) : (c.turned t cause).jobs =
    (c.entry t cause).after.chores.foldl (Entrusted.heed (c.entry t cause).after.disposed) c.jobs :=
  Entrusted.foldl_heed_chores _ _ _

/-- A job that is planned is one of the jobs from then on. -/
theorem planned_mem {id i : JobId} {ns : List Notice} (h : Errands id ns) {plan : Plan} {job : Job}
    (hm : .scheduled i plan job ∈ ns) (late : Bool) (jobs : List Entrusted) :
    ∃ j ∈ ns.foldl (Entrusted.heed late) jobs, j.id = i ∧ j.plan = plan ∧ j.job = job := by
  cases h with
  | none => cases hm
  | planned plan job =>
    cases List.mem_singleton.mp hm
    exact ⟨_, List.mem_cons_self, rfl, rfl, rfl⟩
  | cancelled ids =>
    obtain ⟨_, -, he⟩ := List.mem_map.mp hm
    cases he

variable {c : Crowd} {t : Task} {cause : Cause}

theorem errands_ticks {d : Crowd} {ns : List Notice} (hk : c.Kept)
    (known : ∀ x ∈ c.clock.runner.handles, ∃ j ∈ c.jobs, j.id = x.id ∧ j.plan = x.plan)
    (h : Errands c.session.nextJob ns) {late : Bool}
    (jobs : d.jobs = ns.foldl (Entrusted.heed late) c.jobs)
    (clock : d.clock = ns.foldl Clockwork.heed c.clock) : Ticks (New c d) c.clock d.clock := by
  have unused : ∀ j ∈ c.jobs, j.id ≠ c.session.nextJob := fun j hj => Nat.ne_of_lt (hk.books.fresh j hj)
  rw [clock]
  refine Clockwork.ticks_errands h (fun plan job hm => ⟨?_, ?_⟩) fun x hx => ?_
  · obtain ⟨j, hj, id, hplan, -⟩ := planned_mem h hm late c.jobs
    exact ⟨j, jobs ▸ hj, id, hplan⟩
  · rintro ⟨j, hj, he⟩
    exact unused j hj he
  · obtain ⟨j, hj, he, -⟩ := known x hx
    rw [← he]
    exact unused j hj

theorem turned_errands (ho : c.Orderly) (serves : cause.Serves t.operation) :
    Errands c.session.nextJob (c.entry t cause).after.chores :=
  ((Routine.turn_effect t.id cause c.session).upkeep ho.swept serves).errands

theorem turned_ticks (own : c.session.ownsRunner = true) (ho : c.Orderly) (hk : c.Kept)
    (known : ∀ x ∈ c.clock.runner.handles, ∃ j ∈ c.jobs, j.id = x.id ∧ j.plan = x.plan)
    (serves : cause.Serves t.operation) :
    Ticks (New c (c.turned t cause)) c.clock (c.turned t cause).clock := by
  have owns : (c.entry t cause).after.ownsRunner = true :=
    (Routine.turn_effect t.id cause c.session).ownsRunner.trans own
  apply errands_ticks hk known (turned_errands ho serves) (turned_jobs c t cause)
  unfold turned adopt
  dsimp only
  rw [owns, if_pos rfl]
  exact Clockwork.foldl_heed_chores _ _

theorem turned_olds (ho : c.Orderly) (serves : cause.Serves t.operation)
    (disposed : (c.entry t cause).after.disposed = c.session.disposed) :
    ∀ id, (c.turned t cause).old id → c.old id := by
  rintro id ⟨hd, olds⟩
  have hd : (c.entry t cause).after.disposed = true := hd
  rw [turned_jobs, hd] at olds
  exact ⟨disposed ▸ hd, (turned_errands ho serves).olds c.jobs olds⟩

theorem grows_errands {id : JobId} {ns : List Notice} (h : Errands id ns) (late : Bool)
    (jobs : List Entrusted) : Grows jobs (ns.foldl (Entrusted.heed late) jobs) := by
  cases h with
  | none => exact .refl jobs
  | planned plan job => exact .cons _ jobs
  | cancelled ids =>
    rw [Entrusted.foldl_heed_cancelled]
    exact grows_cancelAt jobs ids

theorem turned_grows (ho : c.Orderly) (serves : cause.Serves t.operation) :
    Grows c.jobs (c.turned t cause).jobs := by
  rw [turned_jobs]
  exact grows_errands (turned_errands ho serves) _ _

theorem turned_clocked (own : c.session.ownsRunner = true) (ho : c.Orderly) (hk : c.Kept)
    (h : c.Clocked) (serves : cause.Serves t.operation)
    (disposed : (c.entry t cause).after.disposed = c.session.disposed) :
    (c.turned t cause).Clocked := by
  exact h.ticks (turned_ticks own ho hk h.known serves) disposed (turned_grows ho serves)
    (turned_olds ho serves disposed) id

theorem Clocked.with_marks {d : Crowd} (h : c.Clocked) (t : ∀ new, Ticks new c.clock d.clock)
    (disposed : d.session.disposed = c.session.disposed) {f : Entrusted → Entrusted} (marks : Marks f)
    (jobs : d.jobs = c.jobs.map f)
    (endings : (∃ x ∈ d.endings, x.operation = .dispose) → ∃ x ∈ c.endings, x.operation = .dispose) :
    d.Clocked := by
  refine h.ticks (t _) disposed (jobs ▸ marks.grows c.jobs) (fun id => ?_) endings
  · rintro ⟨hd, olds⟩
    rw [jobs, marks.olds] at olds
    exact ⟨disposed ▸ hd, olds⟩

theorem finish_clocked (h : c.Clocked) (other : t.operation ≠ .dispose) (r : Except Trouble Outcome) :
    (c.finish t r).Clocked := by
  apply h.with_marks (fun new => finish_ticks new c t r) rfl (Entrusted.marks_finishAt t.job) rfl
  rintro ⟨x, hx, ho⟩
  rcases List.mem_cons.mp hx with rfl | hx
  · exact absurd ho other
  · exact ⟨x, hx, ho⟩

/-- A disposal is over when nothing is left of what was old. -/
theorem finish_gone (h : c.Clocked) (gone : Gone c.old c.clock.runner) (r : Except Trouble Outcome) :
    (c.finish t r).Clocked := by
  have with_gone : Clocked { c with endings := (c.finish t r).endings } :=
    ⟨h.sound, h.known, h.quiet, h.winding, fun _ => gone⟩
  exact with_gone.with_marks (fun new => finish_ticks new c t r) rfl (Entrusted.marks_finishAt t.job) rfl id

theorem goOn_clocked (h : c.Clocked) (other : t.operation ≠ .dispose) {r : Except Trouble Next}
    (hr : r ≠ .ok .stopRunner) : (c.goOn t r).Clocked := by
  cases r with
  | error e => exact finish_clocked h other _
  | ok next =>
    cases next with
    | done o => exact finish_clocked h other _
    | stopRunner => exact absurd rfl hr
    | ask x k => exact ⟨h.sound, h.known, h.quiet, h.winding, h.gone⟩
    | pause w => exact ⟨h.sound, h.known, h.quiet, h.winding, h.gone⟩
    | queue k => exact ⟨h.sound, h.known, h.quiet, h.winding, h.gone⟩

/-- A disposal begins to shut the runner down, or it is over at once. -/
theorem shutdown_clocked (sound : c.clock.Sound)
    (known : ∀ x ∈ c.clock.runner.handles, ∃ j ∈ c.jobs, j.id = x.id ∧ j.plan = x.plan)
    (disposed : c.session.disposed = true) (start : c.clock.Quiet ∨ c.clock.Winding c.old)
    (gone : (∃ x ∈ c.endings, x.operation = .dispose) → Gone c.old c.clock.runner) :
    (c.goOn t (.ok .stopRunner)).Clocked := by
  obtain ⟨v, ticks, asked, shut⟩ := Clockwork.shutdown_cases (fun _ _ => False) sound t.id
  have fresh : ∀ id : HandleId, Plan → False → ¬ c.old id := fun _ _ => False.elim
  have vsound := ticks.sound sound
  have winding : v.Winding c.old := by
    rcases start with quiet | winding
    · exact (ticks.quiet sound quiet).winding vsound asked c.old
    · exact ticks.winding sound winding fresh
  unfold goOn
  dsimp only
  generalize c.clock.after (c.clock.runner.shutdown t.id none).1 _ = clk at shut
  have handles : ∀ x ∈ clk.runner.handles, ∃ j ∈ c.jobs, j.id = x.id ∧ j.plan = x.plan := by
    intro x hx
    have hx : x ∈ v.runner.handles := shut.handles ▸ hx
    rcases ticks.ids x hx with none | ⟨y, hy, id, plan⟩
    · exact none.elim
    · exact id ▸ plan ▸ known y hy
  have live : ∀ P : Prop, c.session.disposed = false → P := fun P hd => by
    rw [disposed] at hd
    cases hd
  have still : (∃ x ∈ c.endings, x.operation = .dispose) → Gone c.old clk.runner := by
    intro he
    have := ticks.gone sound (gone he) fresh
    exact ⟨shut.tracked ▸ this.handles, shut.live ▸ this.runs⟩
  have clocked : Clocked { c with clock := clk } :=
    ⟨shut.sound vsound, handles, live _, shut.winding winding, still⟩
  generalize (c.clock.runner.shutdown t.id none).2.2 = waits at shut
  cases waits with
  | true =>
    rw [if_pos rfl]
    exact ⟨clocked.sound, clocked.known, clocked.quiet, clocked.winding, clocked.gone⟩
  | false =>
    rw [if_neg Bool.false_ne_true]
    refine finish_gone clocked ?_ _
    cases shut with
    | nothing tracked runs =>
      refine ⟨?_, ?_⟩
      · rw [tracked]
        exact fun _ => nofun
      · rw [runs]
        exact fun _ => nofun

theorem Orderly.disposed_of_ending (ho : c.Orderly) (hl : c.Chronicle)
    (h : ∃ x ∈ c.endings, x.operation = .dispose) : c.session.disposed = true := by
  obtain ⟨x, hx, op⟩ := h
  obtain ⟨e, es, he, life, -⟩ := ho.ended x hx
  have serves := life.course.1
  rw [op] at serves
  have mem : e ∈ c.turns x.task := he ▸ List.mem_cons_self
  exact hl.disposed.mpr ⟨e, (mem_turns.mp mem).1, serves.dispose⟩

theorem advance_clocked (own : c.session.ownsRunner = true) (ho : c.Orderly) (hk : c.Kept)
    (h : c.Clocked) (serves : cause.Serves t.operation)
    (unended : c.session.disposed = false → ¬ ∃ x ∈ c.endings, x.operation = .dispose) :
    (c.advance t cause).Clocked := by
  have effect := Routine.turn_effect t.id cause c.session
  have stops := effect.stops_iff serves own
  have disposed := effect.disposed_iff
  change ((c.turned t cause).goOn t (c.entry t cause).result).Clocked
  by_cases op : t.operation = .dispose
  · rw [op] at serves
    have closed : (c.entry t cause).after.disposed = true := disposed.mpr (.inr serves.dispose)
    have result : (c.entry t cause).result = .ok .stopRunner := stops.mpr op
    rw [result]
    rw [← op] at serves
    have ticks := turned_ticks own ho hk h.known serves
    have known := known_of_ticks ticks h.known (turned_grows ho serves)
    refine shutdown_clocked (ticks.sound h.sound) known closed ?_ fun he => ?_
    · cases hd : c.session.disposed with
      | true => exact .inr (turned_clocked own ho hk h serves (closed.trans hd.symm)).winding
      | false => exact .inl (ticks.quiet h.sound (h.quiet hd))
    · cases hd : c.session.disposed with
      | true => exact (turned_clocked own ho hk h serves (closed.trans hd.symm)).gone he
      | false => exact absurd he (unended hd)
  · have other : cause ≠ .started .dispose := by
      rintro rfl
      exact op serves.symm
    have same : (c.entry t cause).after.disposed = c.session.disposed := by
      rw [Bool.eq_iff_iff]
      exact disposed.trans (or_iff_left other)
    exact goOn_clocked (turned_clocked own ho hk h serves same) op fun hr => op (stops.mp hr)

theorem spawn_clocked (own : c.session.ownsRunner = true) (ho : c.Orderly) (hk : c.Kept)
    (h : c.Clocked) (unended : c.session.disposed = false → ¬ ∃ x ∈ c.endings, x.operation = .dispose)
    (o : Operation) (job : Option JobId) (run : Option RunId) : (c.spawn o job run).Clocked :=
  advance_clocked (c := { c with nextTask := c.nextTask + 1 }) own ho.later ⟨hk.books, hk.assigned⟩
    ⟨h.sound, h.known, h.quiet, h.winding, h.gone⟩ rfl unended

theorem begin_clocked (own : c.session.ownsRunner = true) (ho : c.Orderly) (hk : c.Kept)
    (h : c.Clocked) (unended : c.session.disposed = false → ¬ ∃ x ∈ c.endings, x.operation = .dispose)
    (id : JobId) (run : Option RunId) : (c.begin id run).Clocked := by
  unfold begin
  split
  · exact h
  · next j hj =>
    have marks := Entrusted.marks_beginAt id
    have begun : Clocked { c with jobs := beginAt c.jobs id } :=
      h.with_marks (fun _ => .refl) rfl marks rfl (fun he => he)
    have kept : Kept { c with jobs := beginAt c.jobs id } :=
      ⟨hk.books.begin id, fun m hm => (hk.assigned m hm).grow (marks.grows c.jobs)⟩
    exact spawn_clocked (c := { c with jobs := beginAt c.jobs id }) own (ho.with_jobs _ c.clock) kept
      begun unended _ _ _

theorem with_clock_clocked (h : c.Clocked) {clock : Clockwork} (t : ∀ new, Ticks new c.clock clock) :
    { c with clock }.Clocked :=
  h.ticks (t _) rfl (.refl c.jobs) (fun _ ho => ho) fun he => he

theorem instant_errands {turn : Turn Bool} (hi : Instant turn) {s : Session} (hs : s.outbox = []) :
    Errands s.nextJob (turn.exec s).2.outbox := by
  obtain ⟨job, -, hu⟩ := exec_instant hi s
  rw [hu]
  split
  · rw [hs]
    exact .none
  · have outbox : (s.entrusted .once fun _ => job).outbox = [.scheduled s.nextJob .once job] := by
      simp [Session.entrusted, Session.emit, hs]
    rw [outbox]
    exact .planned _ _

theorem atOnce_clocked (own : c.session.ownsRunner = true) (ho : c.Orderly) (hk : c.Kept)
    (h : c.Clocked) {turn : Turn Bool} (hi : Instant turn) : (c.atOnce turn).Clocked := by
  have calm := calm_instant hi c.session
  have errands := instant_errands hi ho.swept
  have clock : (c.atOnce turn).clock =
      (turn.exec c.session).2.outbox.foldl Clockwork.heed c.clock :=
    if_pos (calm.ownsRunner.trans own)
  refine h.ticks (errands_ticks hk h.known errands rfl clock) calm.disposed
    (grows_errands errands (turn.exec c.session).2.disposed c.jobs) ?_ fun he => he
  · rintro id ⟨hd, olds⟩
    have hd : (turn.exec c.session).2.disposed = true := hd
    change Olds ((turn.exec c.session).2.outbox.foldl _ c.jobs) id at olds
    rw [hd] at olds
    exact ⟨calm.disposed.symm.trans hd, errands.olds c.jobs olds⟩

theorem moved_clocked {d : Crowd} (own : c.session.ownsRunner = true) (ho : c.Orderly)
    (hl : c.Chronicle) (hk : c.Kept) (h : c.Clocked) (moved : Moved c d) : d.Clocked := by
  have unended : c.session.disposed = false → ¬ ∃ x ∈ c.endings, x.operation = .dispose := by
    intro hd he
    cases hd.symm.trans (ho.disposed_of_ending hl he)
  cases moved with
  | same => exact h
  | asked _ => exact spawn_clocked own ho hk h unended _ _ _
  | resumed hm hw _ => exact advance_clocked own ho hk h (hw.serves (ho.serves hm)) unended
  | atOnce hi => exact atOnce_clocked own ho hk h hi
  | host _ => exact ⟨h.sound, h.known, h.quiet, h.winding, h.gone⟩
  | ran no _ _ => cases no.symm.trans own
  | @began i run id clock ht _ =>
    obtain ⟨pre, n, post, heq, rfl, -⟩ := Clockwork.take?_eq ht
    have taken : Clocked { c with clock := { c.clock with ready := pre ++ post } } :=
      with_clock_clocked h fun _ => .single (.takes heq nofun nofun)
    exact begin_clocked (c := { c with clock := { c.clock with ready := pre ++ post } }) own
      (ho.with_jobs c.jobs _) (hk.with_clock _) taken unended _ _
  | @stopped i m clock ht hm hw =>
    obtain ⟨pre, n, post, heq, rfl, first⟩ := Clockwork.take?_eq ht
    have gone : Gone c.old c.clock.runner := h.winding.gone h.sound heq first
    have taken : Clocked { c with clock := { c.clock with ready := pre ++ post } } :=
      with_clock_clocked h fun _ => .single (.takes heq nofun nofun)
    exact finish_gone taken gone _
  | ticked ht => exact with_clock_clocked h fun _ => Clockwork.ticks_take ht
  | woke i turns => exact with_clock_clocked h fun _ => Clockwork.ticks_rouse i turns

theorem moved_owns {d : Crowd} (ho : c.Orderly) (moved : Moved c d) :
    d.session.ownsRunner = c.session.ownsRunner := by
  have turn : ∀ {d : Crowd}, (∃ e : Entry, e.Sound ∧ e.before = c.session ∧ d.log = e :: c.log ∧
      d.session = { e.after with outbox := [] }) → d.session.ownsRunner = c.session.ownsRunner := by
    rintro d ⟨e, sound, before, -, session⟩
    rw [session, ← before]
    exact sound.effect.ownsRunner
  cases moved with
  | same => rfl
  | asked _ => exact turn (advance_log ho.later _ _)
  | resumed _ _ _ => exact turn (advance_log ho _ _)
  | atOnce hi => exact (calm_instant hi c.session).ownsRunner
  | host _ => rfl
  | @ran j _ _ _ =>
    rcases begin_log ho j.id none with same | h
    · rw [same]
    · exact turn h
  | @began _ run id clock _ _ =>
    rcases begin_log (ho.with_jobs c.jobs clock) id (some run) with same | h
    · rw [same]
    · exact turn h
  | stopped _ _ _ => rfl
  | ticked _ => rfl
  | woke _ _ => rfl

theorem clocked_start (config : Config) : (start config true).Clocked := by
  have quiet : (start config true).clock.Quiet := ⟨rfl, List.forall_mem_nil _⟩
  have asked : ∀ id, Clockwork.Asked (start config true).clock.runner id := fun _ => List.forall_mem_nil _
  refine ⟨Clockwork.sound_empty, List.forall_mem_nil _, fun _ => quiet,
    quiet.winding Clockwork.sound_empty asked _, ?_⟩
  rintro ⟨x, hx, -⟩
  cases hx

theorem Reachable.clocked {c : Crowd} (h : c.Reachable) (own : c.session.ownsRunner = true) :
    c.Clocked := by
  refine h.induction (P := fun c => c.session.ownsRunner = true → c.Clocked) ?_ ?_ own
  · rintro config ownsRunner own
    cases own
    exact clocked_start config
  · intro c mv hc ih own
    have moved := step_moved c mv
    have owned := (moved_owns hc.orderly moved).symm.trans own
    exact moved_clocked owned hc.orderly hc.chronicle hc.kept (ih owned) moved

/-- The clock of a session's own runner stands still, and no task is a run of it. -/
structure Clockless (c : Crowd) : Prop where
  clock : c.clock = {}
  runs : ∀ m ∈ c.members, m.run = none

theorem Clockless.still (h : c.Clockless) {i : Nat} {p : RunnerCall TaskId × Clockwork} :
    c.clock.take? i ≠ some p := by
  intro ht
  rw [h.clock] at ht
  cases i <;> cases ht

theorem advance_clockless (hosted : c.session.ownsRunner = false) (h : c.Clockless)
    (run : t.run = none) (serves : cause.Serves t.operation) : (c.advance t cause).Clockless := by
  have effect := Routine.turn_effect t.id cause c.session
  have owns : (c.entry t cause).after.ownsRunner = false := effect.ownsRunner.trans hosted
  have goes : (c.entry t cause).result ≠ .ok .stopRunner := effect.never_stops serves hosted
  have clock : (c.turned t cause).clock = {} := by
    unfold turned adopt
    rw [owns]
    exact h.clock
  have runs : ∀ m ∈ (c.turned t cause).others t.id, m.run = none :=
    fun m hm => h.runs m (mem_others.mp hm).1
  have finished : ∀ r, ((c.turned t cause).finish t r).Clockless := by
    intro r
    refine ⟨?_, runs⟩
    unfold finish
    rw [run]
    exact clock
  have kept : ∀ next, ((c.turned t cause).keep t next).Clockless :=
    fun next => ⟨clock, List.forall_mem_cons.mpr ⟨run, runs⟩⟩
  change ((c.turned t cause).goOn t (c.entry t cause).result).Clockless
  generalize (c.entry t cause).result = r at goes
  cases r with
  | error e => exact finished _
  | ok next =>
    cases next with
    | done o => exact finished _
    | stopRunner => exact absurd rfl goes
    | ask x k => exact kept _
    | pause w => exact kept _
    | queue k => exact kept _

theorem moved_clockless {d : Crowd} (hosted : c.session.ownsRunner = false) (ho : c.Orderly)
    (h : c.Clockless) (moved : Moved c d) : d.Clockless := by
  cases moved with
  | same => exact h
  | asked _ =>
    exact advance_clockless (c := { c with nextTask := c.nextTask + 1 }) hosted ⟨h.clock, h.runs⟩ rfl rfl
  | resumed hm hw _ => exact advance_clockless hosted h (h.runs _ hm) (hw.serves (ho.serves hm))
  | @atOnce turn hi =>
    have owns := (calm_instant hi c.session).ownsRunner.trans hosted
    refine ⟨?_, h.runs⟩
    unfold atOnce adopt
    rw [owns]
    exact h.clock
  | host _ => exact ⟨h.clock, h.runs⟩
  | @ran j _ _ _ =>
    unfold begin
    split
    · exact h
    · exact advance_clockless (c := { c with jobs := beginAt c.jobs j.id, nextTask := c.nextTask + 1 })
        hosted ⟨h.clock, h.runs⟩ rfl rfl
  | began ht _ => exact absurd ht h.still
  | stopped ht _ _ => exact absurd ht h.still
  | ticked ht => exact absurd ht h.still
  | woke i turns =>
    refine ⟨?_, h.runs⟩
    change c.clock.wake i turns = {}
    rw [h.clock]
    rfl

theorem Reachable.clockless {c : Crowd} (h : c.Reachable) (hosted : c.session.ownsRunner = false) :
    c.Clockless := by
  refine h.induction (P := fun c => c.session.ownsRunner = false → c.Clockless) ?_ ?_ hosted
  · exact fun _ _ _ => ⟨rfl, List.forall_mem_nil _⟩
  · intro c mv hc ih hosted
    have moved := step_moved c mv
    have before := (moved_owns hc.orderly moved).symm.trans hosted
    exact moved_clockless before hc.orderly (ih before) moved

end Crowd

end BatteryLink
