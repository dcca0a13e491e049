import BatteryLink.Proofs.Frame
/-!
Transactions with the device after the session has been disposed of. Every loop looks whether it
has been, but for one: an activation that was writing time slots before goes on with the next slot.
-/
namespace BatteryLink

open Routine (Cause Next Effect)

namespace Routine

/-- What a turn can have its task wait for once the session has been disposed of. -/
inductive Late (s : Session) : Cause → Next → Prop
  | connect {x : Exchange} : Late s (.started .connect) (.ask x .firstProbe)
  | probe {x : Exchange} : Late s (.started .probe) (.ask x .probe)
  | slot {w : Order.Writing} {x : Exchange} {stage : Order.Stage} :
      w.Sound s → Late s (.rested w) (.ask x (.order stage))
  | rest {w v : Order.Writing} : Late s (.rested w) (.pause v)
  | answered {now : Moment} {stage : Order.Stage} {a : Answered} {w : Order.Writing} :
      Late s (.answered now (.order stage) a) (.pause w)
  | queue {c : Cause} {k : Order.Kind} : Late s c (.queue k)
  | stopRunner {c : Cause} : Late s c .stopRunner
  | done {c : Cause} {o : Outcome} : Late s c (.done o)

variable {self : TaskId} {s : Session} {p : Except Trouble Next × Session} {next : Next}

/-- An order that has the lock asks the device, pauses or ends. -/
theorem Held.cases_ok {toggle : Option String} {n : Nat} {asks runs : Prop} {cut : Trouble → Prop}
    (h : Held toggle n asks runs cut s p) (hr : p.1 = .ok next) :
    (asks ∧ runs ∧ ∃ x stage, next = .ask x (.order stage)) ∨ (runs ∧ ∃ w, next = .pause w) ∨
      ∃ o, next = .done o := by
  cases h with
  | goes runs h =>
    cases h with
    | asked asks _ _ =>
      cases hr
      exact .inl ⟨asks, runs, _, _, rfl⟩
    | paused _ _ =>
      cases hr
      exact .inr (.inl ⟨runs, _, rfl⟩)
    | ended t =>
      cases hr
      exact .inr (.inr ⟨_, rfl⟩)
    | unheard t _ _ => cases hr
  | dropped _ =>
    cases hr
    exact .inr (.inr ⟨_, rfl⟩)
  | interrupted _ => cases hr

theorem Ordered.late {k : Order.Kind} {c : Cause} (h : Ordered self k s p) (hd : s.disposed = true)
    (hr : p.1 = .ok next) : Late s c next := by
  cases h with
  | queued _ =>
    cases hr
    exact .queue
  | held _ h =>
    have closed : (s.locked self).disposed ≠ false := by simp [Session.locked, hd]
    rcases h.cases_ok hr with ⟨-, live, -⟩ | ⟨live, -⟩ | ⟨o, rfl⟩
    · exact absurd live closed
    · exact absurd live closed
    · exact .done

/-- The only turns that go on once the session has been disposed of. -/
theorem Effect.late {c : Cause} (h : Effect self s c p) (hd : s.disposed = true)
    (hr : p.1 = .ok next) : Late s c next := by
  have closed : s.disposed ≠ false := by simp [hd]
  cases h with
  | started h =>
    cases h with
    | order ho h =>
      cases h with
      | idle h =>
        rcases h with rfl | ⟨f, rfl⟩ <;> cases hr
        exact .done
      | wrote _ =>
        cases hr
        exact .done
      | ordered _ _ h => exact h.late hd hr
      | turnedDown =>
        cases hr
        exact .done
      | unheard _ => cases hr
    | probed =>
      cases hr
      exact .probe
    | greeted =>
      cases hr
      exact .connect
    | ungreeted => cases hr
    | closed =>
      cases Except.ok.inj hr
      cases s.ownsRunner with
      | true => exact .stopRunner
      | false => exact .done
  | polled _ h =>
    cases h with
    | asked live _ _ => exact absurd live closed
    | ended _ _ =>
      cases hr
      exact .done
    | failed _ _ => cases hr
  | held hc h =>
    have cases_ok := h.cases_ok hr
    cases hc with
    | answered now stage a =>
      rcases cases_ok with ⟨no, -⟩ | ⟨-, w, rfl⟩ | ⟨o, rfl⟩
      · exact no.elim
      · exact .answered
      · exact .done
    | rested w =>
      rcases cases_ok with ⟨sound, -, x, stage, rfl⟩ | ⟨-, v, rfl⟩ | ⟨o, rfl⟩
      · exact .slot sound
      · exact .rest
      · exact .done
    | granted k =>
      rcases cases_ok with ⟨-, live, -⟩ | ⟨live, -⟩ | ⟨o, rfl⟩
      · exact absurd live closed
      · exact absurd live closed
      · exact .done
  | @probed _ r _ _ _ =>
    cases r with
    | error e => cases hr
    | ok o =>
      cases hr
      exact .done
  | polling _ =>
    cases hr
    exact .done

theorem rested_asks {w : Order.Writing} (h : w.Sound s) :
    ∃ x, ((rested w).exec s).1 = .ok (.ask x (.order (.slot w))) := by
  obtain ⟨x, hx⟩ := Order.writeSlot_asks h
  refine ⟨x, ?_⟩
  unfold rested
  rw [exec_ofOrder, hx]
  rfl

end Routine

/-- Whether a turn begins a transaction with the device. -/
def Entry.begins (e : Entry) : Bool :=
  match e.result with
  | .ok (.ask _ _) => true
  | _ => false

theorem Entry.begins_iff {e : Entry} : e.begins = true ↔ ∃ x k, e.result = .ok (.ask x k) := by
  unfold begins
  split
  · next x k h => exact ⟨fun _ => ⟨x, k, h⟩, fun _ => rfl⟩
  · next h => exact ⟨fun hf => (by cases hf), fun ⟨x, k, hr⟩ => absurd hr (h x k)⟩

/-- Whether a turn disposes of the session. -/
def Entry.isDisposal (e : Entry) : Bool :=
  match e.cause with
  | .started .dispose => true
  | _ => false

theorem Entry.cause_of_isDisposal {e : Entry} (h : e.isDisposal = true) :
    e.cause = .started .dispose := by
  unfold isDisposal at h
  split at h
  · assumption
  · cases h

/-- A turn that leaves an order given to the device in part. -/
def Entry.Writes (e : Entry) : Prop := ∃ next, e.result = .ok next ∧ next.Writes

/-- An order that is given in part was begun before the session was disposed of. -/
theorem Life.began_before {t : TaskId} {o : Operation} {e : Entry} {es : List Entry}
    (h : Life t o (e :: es)) (hw : e.Writes) :
    ∃ f ∈ e :: es, f.Writes ∧ f.before.disposed = false := by
  generalize hl : e :: es = l at h
  induction h generalizing e es with
  | @started e _ _ sound hc =>
    cases hl
    cases hd : e.before.disposed with
    | false => exact ⟨e, List.mem_cons_self, hw, hd⟩
    | true =>
      obtain ⟨next, hr, hn⟩ := hw
      have late := sound.effect.late hd hr
      rw [hc] at late
      cases late <;> exact hn.elim
  | @resumed e f fs prior _ _ sound hr resumes _ ih =>
    cases hl
    cases hd : e.before.disposed with
    | false => exact ⟨e, List.mem_cons_self, hw, hd⟩
    | true =>
      obtain ⟨next, he, hn⟩ := hw
      have late := sound.effect.late hd he
      have prior_writes : prior.Writes := by
        generalize e.cause = c at late resumes
        cases late with
        | slot _ | rest | answered => cases prior <;> first | (cases resumes; trivial) | exact resumes.elim
        | connect | probe | queue | stopRunner | done => exact hn.elim
      obtain ⟨g, hg, writes⟩ := ih ⟨prior, hr, prior_writes⟩ rfl
      exact ⟨g, List.mem_cons_of_mem _ hg, writes⟩

namespace Crowd

/-- After a disposal the operations that were asked for before and after it begin no transaction,
but for an activation that was writing time slots before the disposal: it begins one for each of
its further slots that makes a good request. -/
theorem begins_after_disposal_iff {c : Crowd} (hc : c.Reachable) {e : Entry} {early : List Entry}
    (he : e :: early <:+ c.log) (disposed : ∃ f ∈ early, f.cause = .started .dispose)
    (connect : e.operation ≠ .connect) (probe : e.operation ≠ .probe) :
    (e.begins = true ↔ ∃ w, e.cause = .rested w ∧ w.Sound e.before) ∧
      ∀ w, e.cause = .rested w → e.operation.toggle = some Order.manualToggle ∧
        ∃ f ∈ early, f.task = e.task ∧ f.Writes ∧ f.before.disposed = false := by
  have orderly := hc.orderly
  have life := orderly.life he
  have sound : e.Sound := (life.task e List.mem_cons_self).2.2
  have hd := (hc.chronicle.before e early he).mpr disposed
  have serves := life.course.1
  rw [Entry.begins_iff]
  refine ⟨⟨?_, ?_⟩, ?_⟩
  · rintro ⟨x, k, hr⟩
    have late := sound.effect.late hd hr
    generalize hcause : e.cause = cause at late serves
    cases late with
    | connect => exact absurd serves.symm connect
    | probe => exact absurd serves.symm probe
    | slot hw => exact ⟨_, rfl, hw⟩
  · rintro ⟨w, hcause, hw⟩
    obtain ⟨x, hx⟩ := Routine.rested_asks hw
    have exec := sound.exec
    rw [hcause] at exec
    change (Routine.rested w).exec e.before = _ at exec
    rw [exec] at hx
    exact ⟨x, _, hx⟩
  · intro w hcause
    rw [hcause] at serves
    refine ⟨serves.2.symm, ?_⟩
    generalize hearly : early.filter (fun f => decide (f.task = e.task)) = fs at life
    cases life with
    | started _ _ _ hstart =>
      rw [hcause] at hstart
      cases hstart
    | @resumed _ f fs prior _ _ _ hr resumes before =>
      rw [hcause] at resumes
      have writes : f.Writes := by
        refine ⟨prior, hr, ?_⟩
        cases prior <;> first | exact trivial | exact resumes.elim
      obtain ⟨g, hg, live⟩ := before.began_before writes
      rw [← hearly] at hg
      obtain ⟨hg, task⟩ := List.mem_filter.mp hg
      exact ⟨g, hg, of_decide_eq_true task, live⟩

/-- Two slots are switched on and activated; the device does not answer for the first one, and the
session is disposed of during the pause before the second one. -/
def disposedInPause : List Move :=
  [.start (.command "timePeriod0#enabled" (.bool true)),
    .start (.command "timePeriod1#enabled" (.bool true)),
    .start (.command "manualActivate" (.bool true)),
    .answer 2 ⟨0⟩ (.ok none), .start .dispose, .rest 2]

/-- The last turn of that run is a turn of an order, it comes after a disposal, and it begins a
transaction. -/
theorem exists_late_slot : ∃ e early,
    e :: early <:+ ((start { host := "10.0.0.2" } false).run disposedInPause).log ∧
      e.begins = true ∧ e.operation.isOrder = true ∧ ∃ f ∈ early, f.cause = .started .dispose := by
  generalize hl : ((start { host := "10.0.0.2" } false).run disposedInPause).log = log
  have last : log.head?.any (fun e => e.begins && e.operation.isOrder) = true := by
    rw [← hl]
    decide +kernel
  have late : log.tail.any Entry.isDisposal = true := by
    rw [← hl]
    decide +kernel
  cases log with
  | nil => cases last
  | cons e early =>
    obtain ⟨begins, isOrder⟩ := Bool.and_eq_true_iff.mp last
    obtain ⟨f, hf, disposal⟩ := List.any_eq_true.mp late
    exact ⟨e, early, List.suffix_rfl, begins, isOrder, f, hf, Entry.cause_of_isDisposal disposal⟩

theorem ne_of_isOrder {o : Operation} (h : o.isOrder = true) : o ≠ .connect ∧ o ≠ .probe := by
  constructor <;> rintro rfl <;> cases h

theorem begins_after_disposal_slot : ∃ e early,
    e :: early <:+ ((start { host := "10.0.0.2" } false).run disposedInPause).log ∧
      (∃ f ∈ early, f.cause = .started .dispose) ∧
      ∃ w, e.cause = .rested w ∧ w.Sound e.before := by
  obtain ⟨e, early, suffix, begins, order, disposal⟩ := exists_late_slot
  obtain ⟨connect, probe⟩ := ne_of_isOrder order
  have iff := begins_after_disposal_iff ⟨_, _, _, rfl⟩ suffix disposal connect probe
  exact ⟨e, early, suffix, disposal, iff.1.mp begins⟩

/-- So a disposal does not keep every order from the device. -/
theorem not_quiet_after_disposal : ¬ ∀ c : Crowd, c.Reachable → ∀ e early, e :: early <:+ c.log →
    (∃ f ∈ early, f.cause = .started .dispose) → e.operation ≠ .connect → e.operation ≠ .probe →
    e.begins = false := by
  intro quiet
  obtain ⟨e, early, suffix, begins, order, disposal⟩ := exists_late_slot
  obtain ⟨connect, probe⟩ := ne_of_isOrder order
  have := quiet _ ⟨_, _, _, rfl⟩ e early suffix disposal connect probe
  exact Bool.false_ne_true (this.symm.trans begins)

end Crowd
end BatteryLink
