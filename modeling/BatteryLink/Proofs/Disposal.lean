import BatteryLink.Proofs.Tracing
/-!
What is left to the scheduler when a session has been disposed of. Polls that were planned before
are over or were cancelled, but for a recurring one that was forgotten for a later one. An order
that is accepted after the disposal is still followed by a poll.
-/
namespace BatteryLink.Crowd

/-- Whether the scheduler has something left to do for a job. -/
def Stands (c : Crowd) (id : JobId) : Prop :=
  if c.session.ownsRunner then
    id ∈ c.clock.runner.tracked ∨ ∃ run ∈ c.clock.runner.live, run.handle = id
  else ∃ j ∈ c.jobs, j.id = id ∧ j.live = true

/-- No recurring poll is left and none that follows an order. A runner that belongs to the session
has nothing left at all. -/
structure Cleared (c : Crowd) : Prop where
  polls : ∀ j ∈ c.jobs, j.plan.recurs = true ∨ j.isFollowUp = true → ¬ c.Stands j.id
  runner : c.session.ownsRunner = true → c.clock.runner.pending = 0

variable {c : Crowd}

theorem stands_own (own : c.session.ownsRunner = true) (id : JobId) : c.Stands id ↔
    id ∈ c.clock.runner.tracked ∨ ∃ run ∈ c.clock.runner.live, run.handle = id := by
  unfold Stands
  rw [if_pos own]

theorem stands_hosted (hc : c.Reachable) (hosted : c.session.ownsRunner = false) {j : Entrusted}
    (hj : j ∈ c.jobs) : c.Stands j.id ↔ j.live = true := by
  unfold Stands
  rw [hosted, if_neg Bool.false_ne_true]
  constructor
  · rintro ⟨k, hk, id, live⟩
    rwa [List.inj_on_of_nodup_map hc.kept.books.ids hk hj id] at live
  · exact fun live => ⟨j, hj, rfl, live⟩

theorem pending_eq_zero_iff (own : c.session.ownsRunner = true) :
    c.clock.runner.pending = 0 ↔ ∀ id, ¬ c.Stands id := by
  unfold Runner.pending
  rw [Nat.add_eq_zero_iff, List.length_eq_zero_iff, List.length_eq_zero_iff]
  constructor
  · rintro ⟨tracked, live⟩ id stands
    rw [stands_own own, tracked, live] at stands
    rcases stands with h | ⟨run, h, -⟩ <;> cases h
  · intro none
    constructor
    · refine List.eq_nil_iff_forall_not_mem.mpr fun id hid => none id ?_
      exact (stands_own own id).mpr (.inl hid)
    · refine List.eq_nil_iff_forall_not_mem.mpr fun run hrun => none run.handle ?_
      exact (stands_own own run.handle).mpr (.inr ⟨run, hrun, rfl⟩)

/-- After a disposal the session's own runner has nothing left but late jobs. -/
theorem late_of_stands (hc : c.Reachable) (own : c.session.ownsRunner = true)
    (ended : ∃ x ∈ c.endings, x.operation = .dispose) {id : JobId} (stands : c.Stands id) :
    ∃ j ∈ c.jobs, j.id = id ∧ j.late = true := by
  have clocked := hc.clocked own
  have disposed := hc.orderly.disposed_of_ending hc.chronicle ended
  have gone := clocked.gone ended
  have late : (∃ j ∈ c.jobs, j.id = id) → ¬ c.old id → ∃ j ∈ c.jobs, j.id = id ∧ j.late = true := by
    rintro ⟨j, hj, hid⟩ young
    refine ⟨j, hj, hid, ?_⟩
    by_contra early
    exact young ⟨disposed, j, hj, hid, Bool.eq_false_iff.mpr early⟩
  rcases (stands_own own id).mp stands with tracked | ⟨run, hrun, rfl⟩
  · obtain ⟨x, hx, rfl⟩ := clocked.sound.known id tracked
    obtain ⟨j, hj, hid, -⟩ := clocked.known x hx
    exact late ⟨j, hj, hid⟩ (gone.handles x.id tracked)
  · obtain ⟨x, hx, hid⟩ := clocked.sound.origins run hrun
    obtain ⟨j, hj, hjx, -⟩ := clocked.known x hx
    exact late ⟨j, hj, hjx.trans hid⟩ (gone.runs run hrun)

/-- A recurring poll outlives the session if another one was planned after it. -/
theorem recurring_live_iff (hc : c.Reachable) (ended : ∃ x ∈ c.endings, x.operation = .dispose)
    {j : Entrusted} (hj : j ∈ c.jobs) (hr : j.plan.recurs = true) :
    j.live = true ↔ ∃ k ∈ c.jobs, k.plan.recurs = true ∧ j.id < k.id := by
  have disposed := hc.orderly.disposed_of_ending hc.chronicle ended
  obtain ⟨unfinished, cancelled⟩ := hc.kept.books.recurring j hj hr
  have latest : j.cancelled = true ↔ Latest c.jobs j.id := cancelled.trans (and_iff_right disposed)
  unfold Entrusted.live
  rw [unfinished, Bool.not_false, Bool.and_true, Bool.not_eq_true', ← Bool.not_eq_true, latest]
  unfold Latest
  push Not
  exact Iff.rfl

/-- Once a disposal is over, nothing is left, unless an order was accepted after the disposal whose
poll is still to come, or the scheduler belongs to the host application and more than one recurring
poll was planned. -/
theorem cleared_iff (hc : c.Reachable) (ended : ∃ x ∈ c.endings, x.operation = .dispose) :
    c.Cleared ↔
      (∀ e ∈ c.log, e.Accepts → e.before.disposed = true → ¬ c.Stands e.before.nextJob) ∧
      (c.session.ownsRunner = false → ∀ j ∈ c.jobs, ∀ k ∈ c.jobs,
        j.plan.recurs = true → k.plan.recurs = true → j.id = k.id) := by
  have books := hc.kept.books
  have disposed := hc.orderly.disposed_of_ending hc.chronicle ended
  constructor
  · intro h
    refine ⟨fun e he ha _ => ?_, fun hosted j hj k hk jr kr => ?_⟩
    · obtain ⟨j, hj, id, hf, -⟩ := hc.traced.accepted e he ha
      exact id ▸ h.polls j hj (.inr hf)
    · have last : ∀ i ∈ c.jobs, i.plan.recurs = true → ∀ l ∈ c.jobs, l.plan.recurs = true → l.id ≤ i.id := by
        intro i hi ir l hl lr
        by_contra above
        have live := (recurring_live_iff hc ended hi ir).mpr ⟨l, hl, lr, Nat.lt_of_not_le above⟩
        exact h.polls i hi (.inl ir) ((stands_hosted hc hosted hi).mpr live)
      exact Nat.le_antisymm (last k hk kr j hj jr) (last j hj jr k hk kr)
  · rintro ⟨orders, recurring⟩
    have late : ∀ j ∈ c.jobs, j.late = true → ¬ c.Stands j.id := by
      intro j hj hl
      obtain ⟨e, he, ha, id, hd⟩ := hc.traced.followUp j hj (books.lateness j hj hl).2
      exact id ▸ orders e he ha (hd.trans hl)
    cases own : c.session.ownsRunner with
    | true =>
      have none : ∀ id, ¬ c.Stands id := by
        intro id stands
        obtain ⟨j, hj, rfl, hl⟩ := late_of_stands hc own ended stands
        exact late j hj hl stands
      exact ⟨fun j _ _ => none j.id, fun own => (pending_eq_zero_iff own).mpr none⟩
    | false =>
      refine ⟨fun j hj poll stands => ?_, fun h => by cases own.symm.trans h⟩
      have live := (stands_hosted hc own hj).mp stands
      rcases poll with hr | hf
      · obtain ⟨k, hk, kr, above⟩ := (recurring_live_iff hc ended hj hr).mp live
        exact Nat.ne_of_lt above (recurring own j hj k hk hr kr)
      · exact late j hj (books.late disposed j hj hf live) stands

def isOver (c : Crowd) : Bool :=
  c.endings.any fun x => match x.operation with
    | .dispose => true
    | _ => false

theorem exists_of_isOver (h : c.isOver = true) : ∃ x ∈ c.endings, x.operation = .dispose := by
  obtain ⟨x, hx, disposal⟩ := List.any_eq_true.mp h
  refine ⟨x, hx, ?_⟩
  split at disposal
  · assumption
  · cases disposal

/-- An order is on its way when the session is disposed of, and the device accepts it after that. -/
def acceptedLate : List Move :=
  [.start (.command "modeSelect" (.text "Auto")), .start .dispose,
    .answer 0 ⟨0⟩ (.ok (some "\x7b\"id\":0,\"result\":\x7b\"set_result\":true\x7d\x7d".toUTF8.toList))]

theorem acceptedLate_isOver (ownsRunner : Bool) :
    ∃ x ∈ ((start { host := "10.0.0.2" } ownsRunner).run acceptedLate).endings, x.operation = .dispose := by
  apply exists_of_isOver
  cases ownsRunner <;> decide +kernel

theorem cleared_iff_acceptedLate :
    let c := (start { host := "10.0.0.2" } true).run acceptedLate
    (∃ x ∈ c.endings, x.operation = .dispose) ∧ (c.Cleared ↔
      (∀ e ∈ c.log, e.Accepts → e.before.disposed = true → ¬ c.Stands e.before.nextJob) ∧
      (c.session.ownsRunner = false → ∀ j ∈ c.jobs, ∀ k ∈ c.jobs,
        j.plan.recurs = true → k.plan.recurs = true → j.id = k.id)) :=
  ⟨acceptedLate_isOver true, cleared_iff ⟨_, _, _, rfl⟩ (acceptedLate_isOver true)⟩

/-- So the session's own runner is not always empty when a disposal and all orders are over. -/
theorem not_cleared_after_disposal : ¬ ∀ c : Crowd, c.Reachable →
    (∃ x ∈ c.endings, x.operation = .dispose) → c.members = [] → c.Cleared := by
  intro cleared
  have settled : ((start { host := "10.0.0.2" } true).run acceptedLate).members.isEmpty = true := by
    decide +kernel
  have owns : ((start { host := "10.0.0.2" } true).run acceptedLate).session.ownsRunner = true := by
    decide +kernel
  have pending : ((start { host := "10.0.0.2" } true).run acceptedLate).clock.runner.pending = 1 := by
    decide +kernel
  have none := (cleared _ ⟨_, _, _, rfl⟩ (acceptedLate_isOver true) (List.isEmpty_iff.mp settled)).runner owns
  rw [pending] at none
  exact Nat.one_ne_zero none

end BatteryLink.Crowd
