import BatteryLink.Proofs.Runner
/-!
Orders that the device takes, and the polls that follow them.
-/
namespace BatteryLink

open Routine (Cause Next Upkeep)
open Entrusted (Marks finishAt beginAt)

/-- Every follow-up goes back to an order that was accepted, and every such order has one; it is late
if the order was accepted after the session had been disposed of. -/
structure Traced (jobs : List Entrusted) (log : List Entry) : Prop where
  followUp : ∀ j ∈ jobs, j.isFollowUp = true →
    ∃ e ∈ log, e.Accepts ∧ e.before.nextJob = j.id ∧ e.before.disposed = j.late
  accepted : ∀ e ∈ log, e.Accepts →
    ∃ j ∈ jobs, j.id = e.before.nextJob ∧ j.isFollowUp = true ∧ j.late = e.before.disposed

namespace Traced

variable {jobs : List Entrusted} {log : List Entry}

theorem marks (h : Traced jobs log) {f : Entrusted → Entrusted} (marks : Marks f) :
    Traced (jobs.map f) log where
  followUp := by
    rw [List.forall_mem_map]
    intro j hj hf
    rw [marks.id, marks.late]
    rw [marks.isFollowUp] at hf
    exact h.followUp j hj hf
  accepted := by
    intro e he ha
    obtain ⟨j, hj, id, hf, late⟩ := h.accepted e he ha
    refine ⟨f j, List.mem_map_of_mem hj, ?_, ?_, ?_⟩
    · rw [marks.id, id]
    · rw [marks.isFollowUp, hf]
    · rw [marks.late, late]

/-- A job that is no follow-up. -/
theorem cons (h : Traced jobs log) {j : Entrusted} (other : j.isFollowUp = false) :
    Traced (j :: jobs) log where
  followUp := by
    refine List.forall_mem_cons.mpr ⟨fun hf => ?_, h.followUp⟩
    cases other.symm.trans hf
  accepted := by
    intro e he ha
    obtain ⟨k, hk, rest⟩ := h.accepted e he ha
    exact ⟨k, List.mem_cons_of_mem _ hk, rest⟩

/-- A turn that is not the end of an accepted order. -/
theorem log_cons (h : Traced jobs log) {e : Entry} (refused : ¬ e.Accepts) : Traced jobs (e :: log) where
  followUp := by
    intro j hj hf
    obtain ⟨f, hf, rest⟩ := h.followUp j hj hf
    exact ⟨f, List.mem_cons_of_mem _ hf, rest⟩
  accepted := List.forall_mem_cons.mpr ⟨fun ha => absurd ha refused, h.accepted⟩

theorem turn (h : Traced jobs log) {e : Entry} (upkeep : Upkeep e.operation e.before (e.result, e.after)) :
    Traced (e.after.entrusts jobs) (e :: log) := by
  unfold Session.entrusts
  generalize hu : e.after = u at upkeep
  generalize hr : e.result = r at upkeep
  have other : e.operation.isOrder = false → ¬ e.Accepts := Routine.not_accepts_other
  cases upkeep with
  | same refused _ chores _ =>
    rw [chores]
    rw [← hr] at refused
    exact h.log_cons refused
  | @planned _ _ toggle accepts disposed _ _ _ chores =>
    rw [chores, disposed]
    rw [← hr] at accepts
    refine ⟨List.forall_mem_cons.mpr ⟨fun _ => ⟨e, List.mem_cons_self, accepts, rfl, rfl⟩, ?_⟩,
      List.forall_mem_cons.mpr ⟨fun _ => ⟨_, List.mem_cons_self, rfl, rfl, rfl⟩, ?_⟩⟩
    · intro j hj hf
      obtain ⟨f, hf, rest⟩ := h.followUp j hj hf
      exact ⟨f, List.mem_cons_of_mem _ hf, rest⟩
    · intro f hf ha
      obtain ⟨j, hj, rest⟩ := h.accepted f hf ha
      exact ⟨j, List.mem_cons_of_mem _ hj, rest⟩
  | settled ho _ _ _ _ _ chores =>
    rw [chores]
    exact h.log_cons (other (by rw [ho]; rfl))
  | polling ho _ _ _ _ _ chores =>
    rw [chores]
    exact (h.log_cons (other (by rw [ho]; rfl))).cons rfl
  | closed ho _ _ _ _ chores =>
    rw [chores, Entrusted.foldl_heed_cancelled]
    obtain ⟨f, marks, eq, -⟩ := Entrusted.cancelAt_eq jobs e.before.upkeep
    rw [eq]
    exact (h.log_cons (other (by rw [ho]; rfl))).marks marks

end Traced

namespace Crowd

variable {c : Crowd} {t : Task} {cause : Cause}

theorem goOn_traced (h : Traced c.jobs c.log) (r : Except Trouble Next) :
    Traced (c.goOn t r).jobs (c.goOn t r).log := by
  rcases goOn_eq c t r with ⟨next, clock, -, -, eq⟩ | ⟨out, clock, -, eq⟩
  · rw [eq]
    exact h
  · rw [eq]
    exact h.marks (Entrusted.marks_finishAt t.job)

theorem advance_traced (ho : c.Orderly) (h : Traced c.jobs c.log) (serves : cause.Serves t.operation) :
    Traced (c.advance t cause).jobs (c.advance t cause).log := by
  have upkeep := (Routine.turn_effect t.id cause c.session).upkeep ho.swept serves
  have turned : Traced (c.turned t cause).jobs (c.turned t cause).log := by
    rw [turned_jobs]
    exact h.turn (e := c.entry t cause) upkeep
  exact goOn_traced turned _

theorem begin_traced (ho : c.Orderly) (h : Traced c.jobs c.log) (id : JobId) (run : Option RunId) :
    Traced (c.begin id run).jobs (c.begin id run).log := by
  unfold begin
  split
  · exact h
  · have begun := h.marks (Entrusted.marks_beginAt id)
    exact advance_traced (c := { c with jobs := beginAt c.jobs id, nextTask := c.nextTask + 1 })
      (ho.with_jobs (beginAt c.jobs id) c.clock).later begun rfl

theorem moved_traced {d : Crowd} (ho : c.Orderly) (h : Traced c.jobs c.log) (moved : Moved c d) :
    Traced d.jobs d.log := by
  cases moved with
  | same => exact h
  | asked _ => exact advance_traced (c := { c with nextTask := c.nextTask + 1 }) ho.later h rfl
  | resumed hm hw _ => exact advance_traced ho h (hw.serves (ho.serves hm))
  | @atOnce turn hi =>
    obtain ⟨job, other, hu⟩ := exec_instant hi c.session
    change Traced ((turn.exec c.session).2.outbox.foldl (Entrusted.heed _) c.jobs) c.log
    rw [hu]
    split
    · rw [ho.swept]
      exact h
    · have outbox : (c.session.entrusted .once fun _ => job).outbox =
          [.scheduled c.session.nextJob .once job] := by
        simp [Session.entrusted, Session.emit, ho.swept]
      rw [outbox]
      exact h.cons other
  | host _ => exact h
  | ran _ _ _ => exact begin_traced ho h _ _
  | @began _ _ _ clock _ _ =>
    exact begin_traced (c := { c with clock }) (ho.with_jobs c.jobs clock) h _ _
  | @stopped _ m clock _ _ _ => exact h.marks (Entrusted.marks_finishAt m.job)
  | ticked _ => exact h
  | woke _ _ => exact h

theorem traced_start (config : Config) (ownsRunner : Bool) :
    Traced (start config ownsRunner).jobs (start config ownsRunner).log :=
  ⟨List.forall_mem_nil _, List.forall_mem_nil _⟩

theorem Reachable.traced {c : Crowd} (h : c.Reachable) : Traced c.jobs c.log :=
  h.induction (P := fun c => Traced c.jobs c.log) traced_start
    fun c mv hr hc => moved_traced hr.orderly hc (step_moved c mv)

end Crowd
end BatteryLink
